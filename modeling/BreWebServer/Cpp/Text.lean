/-
  BreWebServer.Cpp.Text — byte strings, and what the program uses of the C++ standard
  library's strings and numbers.

  A `std::string` is its bytes. `stoull` and `stoi` read as `strtoull`/`strtol` do in base
  ten and the "C" locale: leading blanks, one sign, digits, anything after them ignored; a
  negative unsigned number wraps modulo 2^64 (`stoull_ok_iff`).
-/

import BreWebServer.Lib.Cut
import Mathlib.Data.List.AList
import Mathlib.Data.List.TakeWhile
import Mathlib.Tactic

namespace BreWebServer.Cpp

open BreWebServer.Lib

abbrev Bytes := List UInt8

/-- A string literal of the source (all of them are ASCII). -/
def ascii (s : String) : Bytes := s.toList.map fun c => c.toNat.toUInt8

/-- The exceptions the modelled code can raise, and the one that nothing can catch: where one
    leaves a `noexcept` function, `std::terminate` ends the process. -/
inductive Exc where
  | invalidArgument
  | outOfRange
  | filesystemError
  | terminated
  deriving DecidableEq, Repr

def sp : UInt8 := 32
def colon : UInt8 := 58
def slash : UInt8 := 47
def dot : UInt8 := 46
def crlf : Bytes := [13, 10]

/-- Lines, each ended by CRLF. -/
def glue (lines : List Bytes) : Bytes := lines.flatMap (· ++ crlf)

/-! ## Numbers -/

/-- `std::to_string`. -/
def decimalString (n : Nat) : Bytes := (Nat.toDigits 10 n).map fun c => c.toNat.toUInt8

def isSpace (c : UInt8) : Bool := c == 32 || (9 ≤ c && c ≤ 13)

def isDigit (c : UInt8) : Bool := 48 ≤ c && c ≤ 57

def digitsValue (s : Bytes) : Nat := s.foldl (fun n c => 10 * n + (c.toNat - 48)) 0

/-- The sign and the digits `strtoull` and `strtol` find. -/
def scanInteger (s : Bytes) : Option (Bool × Nat) :=
  let s := s.dropWhile isSpace
  let neg := s.head? == some 45
  let s := if s.head? == some 45 || s.head? == some 43 then s.tail else s
  let ds := s.takeWhile isDigit
  if ds = [] then none else some (neg, digitsValue ds)

def stoull (s : Bytes) : Except Exc Nat :=
  match scanInteger s with
  | none => .error .invalidArgument
  | some (neg, n) =>
    if 2 ^ 64 ≤ n then .error .outOfRange
    else .ok (if neg then (2 ^ 64 - n) % 2 ^ 64 else n)

def stoi (s : Bytes) : Except Exc Int :=
  match scanInteger s with
  | none => .error .invalidArgument
  | some (neg, n) =>
    let v : Int := if neg then -n else n
    if v < -2 ^ 31 ∨ 2 ^ 31 ≤ v then .error .outOfRange else .ok v

theorem stoull_lt {s : Bytes} {n : Nat} (h : stoull s = .ok n) : n < 2 ^ 64 := by
  unfold stoull at h
  split at h
  · cases h
  · rename_i neg m _
    split at h
    · cases h
    · cases h
      split
      · exact Nat.mod_lt _ (by decide)
      · omega

/-- A digit is no blank and no sign. -/
theorem isDigit_plain {c : UInt8} (h : isDigit c = true) : isSpace c = false ∧ c ≠ 45 ∧ c ≠ 43 := by
  simp only [isDigit, Bool.and_eq_true, decide_eq_true_eq, UInt8.le_iff_toNat_le] at h
  obtain ⟨hlow, hhigh⟩ := h
  have h48 : (48 : UInt8).toNat = 48 := rfl
  refine ⟨?_, ?_, ?_⟩
  · simp only [isSpace, Bool.or_eq_false_iff, beq_eq_false_iff_ne, Bool.and_eq_false_iff, decide_eq_false_iff_not,
      UInt8.le_iff_toNat_le]
    have h13 : (13 : UInt8).toNat = 13 := rfl
    refine ⟨?_, .inr (by omega)⟩
    intro heq
    subst heq
    exact absurd hlow (by decide)
  · intro heq
    subst heq
    exact absurd hlow (by decide)
  · intro heq
    subst heq
    exact absurd hlow (by decide)

theorem takeWhile_to_stop {p : UInt8 → Bool} {a b : Bytes} (ha : ∀ c ∈ a, p c = true)
    (hb : ∀ c ∈ b.head?, p c = false) : (a ++ b).takeWhile p = a ∧ (a ++ b).dropWhile p = b := by
  rw [List.takeWhile_append_of_pos ha, List.dropWhile_append_of_pos ha]
  cases b with
  | nil => simp
  | cons c b =>
    have hc := hb c (by simp)
    simp [hc]

/-- The parts of a text that begins with a number: blanks, a sign, digits, anything. -/
structure NumberParts (s blanks sign digits junk : Bytes) : Prop where
  shape : s = blanks ++ (sign ++ (digits ++ junk))
  blanks_ok : ∀ c ∈ blanks, isSpace c = true
  sign_ok : sign = [] ∨ sign = [43] ∨ sign = [45]
  digits_ne : digits ≠ []
  digits_ok : ∀ c ∈ digits, isDigit c = true
  junk_ok : ∀ c ∈ junk.head?, isDigit c = false

theorem scanInteger_of_parts {s blanks sign digits junk : Bytes} (h : NumberParts s blanks sign digits junk) :
    scanInteger s = some (sign == [45], digitsValue digits) := by
  obtain ⟨rfl, hb, hsign, hne, hd, hj⟩ := h
  obtain ⟨c, hc⟩ : ∃ c, (digits ++ junk).head? = some c ∧ isDigit c = true := by
    obtain ⟨c, tl, rfl⟩ := List.exists_cons_of_ne_nil hne
    exact ⟨c, rfl, hd c List.mem_cons_self⟩
  obtain ⟨hspace, h45, h43⟩ := isDigit_plain hc.2
  have hstop : ∀ x ∈ (sign ++ (digits ++ junk)).head?, isSpace x = false := by
    intro x hx
    rcases hsign with rfl | rfl | rfl
    · rw [List.nil_append, hc.1, Option.mem_some_iff] at hx
      exact hx ▸ hspace
    · rw [List.cons_append, List.head?_cons, Option.mem_some_iff] at hx
      exact hx ▸ (by decide)
    · rw [List.cons_append, List.head?_cons, Option.mem_some_iff] at hx
      exact hx ▸ (by decide)
  have htake := (takeWhile_to_stop hd hj).1
  unfold scanInteger
  rw [(takeWhile_to_stop hb hstop).2]
  rcases hsign with rfl | rfl | rfl
  · simp only [List.nil_append, hc.1, Option.some_beq_some, beq_eq_false_iff_ne.mpr h45,
      beq_eq_false_iff_ne.mpr h43, Bool.or_false, Bool.false_eq_true, if_false, htake, hne]
    rfl
  · simp only [List.cons_append, List.nil_append, List.head?_cons, List.tail_cons, Option.some_beq_some,
      beq_self_eq_true, Bool.or_true, if_true, htake, hne, if_false]
    rfl
  · simp only [List.cons_append, List.nil_append, List.head?_cons, List.tail_cons, beq_self_eq_true,
      Bool.true_or, if_true, htake, hne, if_false]

theorem parts_of_scanInteger {s : Bytes} {neg : Bool} {n : Nat} (h : scanInteger s = some (neg, n)) :
    ∃ blanks sign digits junk, NumberParts s blanks sign digits junk ∧ neg = (sign == [45]) ∧
      n = digitsValue digits := by
  have hblanks : ∀ c ∈ s.takeWhile isSpace, isSpace c = true := fun c hc => List.mem_takeWhile_imp hc
  have hsplit : s = s.takeWhile isSpace ++ s.dropWhile isSpace := List.takeWhile_append_dropWhile.symm
  -- What the digits are once the sign is off.
  have hparts : ∀ sign t : Bytes, s.dropWhile isSpace = sign ++ t → (sign = [] ∨ sign = [43] ∨ sign = [45]) →
      t.takeWhile isDigit ≠ [] →
      NumberParts s (s.takeWhile isSpace) sign (t.takeWhile isDigit) (t.dropWhile isDigit) := by
    intro sign t ht hsign hne
    refine ⟨?_, hblanks, hsign, hne, fun c hc => List.mem_takeWhile_imp hc, ?_⟩
    · rw [List.takeWhile_append_dropWhile, ← ht]
      exact hsplit
    · intro c hc
      have := List.head?_dropWhile_not isDigit t
      rw [Option.mem_def.mp hc] at this
      simpa using this
  simp only [scanInteger] at h
  generalize hs : s.dropWhile isSpace = t at h
  cases t with
  | nil => simp at h
  | cons c t =>
    by_cases h45 : c = 45
    · subst h45
      simp only [List.head?_cons, beq_self_eq_true, Bool.true_or, if_true, List.tail_cons] at h
      split at h
      · cases h
      · rename_i hne
        cases h
        exact ⟨_, [45], _, _, hparts [45] t (by simp [hs]) (by simp) hne, rfl, rfl⟩
    by_cases h43 : c = 43
    · subst h43
      simp at h
      obtain ⟨hne, hneg, hval⟩ := h
      exact ⟨_, [43], _, _, hparts [43] t (by simp [hs]) (by simp) (by simpa using hne), by simpa using hneg, hval.symm⟩
    · simp [h45, h43] at h
      obtain ⟨hne, hneg, hval⟩ := h
      exact ⟨_, [], _, _, hparts [] (c :: t) (by simp [hs]) (by simp) (by simpa using hne), by simp [← hneg, h45],
        hval.symm⟩

/-- Digits are read to their end. -/
theorem scanInteger_digits {s : Bytes} (hne : s ≠ []) (hd : ∀ c ∈ s, isDigit c = true) :
    scanInteger s = some (false, digitsValue s) :=
  @scanInteger_of_parts s [] [] s [] ⟨by simp, by simp, .inl rfl, hne, hd, by simp⟩

theorem scanInteger_minus {s : Bytes} (hne : s ≠ []) (hd : ∀ c ∈ s, isDigit c = true) :
    scanInteger (45 :: s) = some (true, digitsValue s) :=
  @scanInteger_of_parts (45 :: s) [] [45] s [] ⟨by simp, by simp, .inr (.inr rfl), hne, hd, by simp⟩

/-- What `std::stoull` reads: nothing but the sign and the digits counts, and a minus wraps. -/
theorem stoull_ok_iff {s : Bytes} {n : Nat} : stoull s = .ok n ↔ ∃ blanks sign digits junk,
    NumberParts s blanks sign digits junk ∧ digitsValue digits < 2 ^ 64 ∧
      n = if sign = [45] then (2 ^ 64 - digitsValue digits) % 2 ^ 64 else digitsValue digits := by
  constructor
  · intro h
    unfold stoull at h
    split at h
    · cases h
    · rename_i neg m hscan
      obtain ⟨blanks, sign, digits, junk, hparts, rfl, rfl⟩ := parts_of_scanInteger hscan
      split at h
      · cases h
      · rename_i hlt
        cases h
        exact ⟨blanks, sign, digits, junk, hparts, by omega, by simp⟩
  · intro ⟨blanks, sign, digits, junk, hparts, hlt, hn⟩
    have hle : ¬ 2 ^ 64 ≤ digitsValue digits := by omega
    simp only [stoull, scanInteger_of_parts hparts, hle, if_false, hn, beq_iff_eq]

theorem stoull_digits {s : Bytes} (hne : s ≠ []) (hd : ∀ c ∈ s, isDigit c = true) {n : Nat} (h : stoull s = .ok n) :
    n = digitsValue s := by
  unfold stoull at h
  simp only [scanInteger_digits hne hd] at h
  split at h
  · cases h
  · cases h
    rfl

/-! ## Header maps -/

/-- `std::unordered_map<std::string, std::string>`. -/
abbrev Headers := AList (fun _ : Bytes => Bytes)

end BreWebServer.Cpp
