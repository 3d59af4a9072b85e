/-
  BreWebServer.Http.Client — a client that frames responses by their `Content-Length`.

  It reads a response's lines up to the blank one, finds the announced length among the
  header fields (names compared without case, blanks around values dropped) and takes that
  many bytes as the body; the response to a HEAD request ends with its lines.

  Proved: what it reads it reads off the stream byte for byte (`readResponses_sound`), and
  a response whose lines are clean and whose body is the one announced, or none behind a
  HEAD request, is read whole (`readResponse_of_announced`).
-/

import BreWebServer.Http.Parsing

namespace BreWebServer.Http.Client

open BreWebServer.Lib BreWebServer.Cpp

structure Response where
  head : List Bytes
  body : Bytes
  deriving DecidableEq

def lower (s : Bytes) : Bytes := s.map fun c => if 65 ≤ c ∧ c ≤ 90 then c + 32 else c

def isBlank (c : UInt8) : Bool := c == 32 || c == 9

def trim (s : Bytes) : Bytes := ((s.dropWhile isBlank).reverse.dropWhile isBlank).reverse

def fieldValue (name line : Bytes) : Option Bytes :=
  match cut [colon] line with
  | none => none
  | some (key, value) => if lower key = lower name then some (trim value) else none

def readNumber (s : Bytes) : Option Nat := if s ≠ [] ∧ s.all isDigit then some (digitsValue s) else none

/-- The length announced by the fields below a status line. -/
def bodyLength (head : List Bytes) : Option Nat := (head.tail.findSome? (fieldValue contentLengthKey)).bind readNumber

def readHead : Nat → Bytes → Option (List Bytes × Bytes)
  | 0, _ => none
  | n + 1, s =>
    match cut crlf s with
    | none => none
    | some (line, rest) =>
      if line = [] then some ([], rest) else (readHead n rest).map fun r => (line :: r.1, r.2)

/-- Read the response to one request, a HEAD request or another. -/
def readResponse (toHead : Bool) (s : Bytes) : Option (Response × Bytes) :=
  match readHead s.length s with
  | none => none
  | some (head, rest) =>
    if toHead then some (⟨head, []⟩, rest)
    else
      match bodyLength head with
      | none => none
      | some n => if n ≤ rest.length then some (⟨head, rest.take n⟩, rest.drop n) else none

def readResponses : List Bool → Bytes → Option (List Response × Bytes)
  | [], s => some ([], s)
  | toHead :: more, s =>
    (readResponse toHead s).bind fun r => (readResponses more r.2).map fun rs => (r.1 :: rs.1, rs.2)

/-- The bytes of a response. -/
def Response.bytes (r : Response) : Bytes := glue r.head ++ crlf ++ r.body

/-! ## Reading takes what it gives -/

theorem readHead_sound (n : Nat) : ∀ {s rest : Bytes} {head : List Bytes}, readHead n s = some (head, rest) →
    s = glue head ++ crlf ++ rest := by
  induction n with
  | zero => intro s rest head h; cases h
  | succ n ih =>
    intro s rest head h
    simp only [readHead] at h
    cases hc : cut crlf s with
    | none => simp [hc] at h
    | some p =>
      obtain ⟨line, tail⟩ := p
      simp only [hc] at h
      have he := (cut_crlf_eq hc).1
      by_cases hl : line = []
      · simp only [hl, if_true, Option.some.injEq, Prod.mk.injEq] at h
        obtain ⟨rfl, rfl⟩ := h
        rw [he, hl]
        rfl
      · simp only [hl, if_false] at h
        obtain ⟨⟨lines, r⟩, hr, hp⟩ := Option.map_eq_some_iff.mp h
        simp only [Prod.mk.injEq] at hp
        obtain ⟨rfl, rfl⟩ := hp
        rw [he, ih hr]
        simp [glue]

theorem readResponse_sound {toHead : Bool} {s rest : Bytes} {r : Response} (h : readResponse toHead s = some (r, rest)) :
    s = r.bytes ++ rest := by
  simp only [readResponse] at h
  cases hh : readHead s.length s with
  | none => simp [hh] at h
  | some p =>
    obtain ⟨head, tail⟩ := p
    have hs := readHead_sound _ hh
    simp only [hh] at h
    cases toHead with
    | true =>
      simp only [if_true, Option.some.injEq, Prod.mk.injEq] at h
      obtain ⟨rfl, rfl⟩ := h
      simpa [Response.bytes] using hs
    | false =>
      simp only [Bool.false_eq_true, if_false] at h
      cases hb : bodyLength head with
      | none => simp [hb] at h
      | some n =>
        simp only [hb] at h
        split at h
        · simp only [Option.some.injEq, Prod.mk.injEq] at h
          obtain ⟨rfl, rfl⟩ := h
          simpa [Response.bytes] using hs
        · cases h

theorem readResponses_sound (requests : List Bool) : ∀ {s rest : Bytes} {rs : List Response},
    readResponses requests s = some (rs, rest) → s = rs.flatMap Response.bytes ++ rest := by
  induction requests with
  | nil => intro s rest rs h; cases h; rfl
  | cons toHead more ih =>
    intro s rest rs h
    obtain ⟨⟨r, s'⟩, hr, h⟩ := Option.bind_eq_some_iff.mp h
    obtain ⟨⟨rs', rest'⟩, hrs, hp⟩ := Option.map_eq_some_iff.mp h
    simp only [Prod.mk.injEq] at hp
    obtain ⟨rfl, rfl⟩ := hp
    have hs' : s' = rs'.flatMap Response.bytes ++ rest' := ih hrs
    rw [readResponse_sound hr, hs']
    simp

/-! ## Reading a response whole -/

theorem readHead_glue (head : List Bytes) (hok : ∀ l ∈ head, l ≠ [] ∧ ¬ crlf <:+: l) (rest : Bytes) : ∀ {n : Nat},
    head.length < n → readHead n (glue head ++ crlf ++ rest) = some (head, rest) := by
  induction head with
  | nil =>
    intro n hn
    cases n with
    | zero => omega
    | succ n =>
      have hc : cut crlf (glue [] ++ crlf ++ rest) = some ([], rest) := cut_crlf_blank rest
      simp only [readHead, hc, if_true]
  | cons line head ih =>
    intro n hn
    cases n with
    | zero => omega
    | succ n =>
      obtain ⟨hne, hclear⟩ := hok line (by simp)
      have he : glue (line :: head) ++ crlf ++ rest = line ++ crlf ++ (glue head ++ crlf ++ rest) := by simp [glue]
      have hi : readHead n (glue head ++ crlf ++ rest) = some (head, rest) :=
        ih (fun l hl => hok l (by simp [hl])) (by simp only [List.length_cons] at hn; omega)
      simp only [he, readHead, cut_crlf hclear, hne, if_false, hi, Option.map_some]

theorem length_glue (lines : List Bytes) : 2 * lines.length ≤ (glue lines).length := by
  induction lines with
  | nil => simp
  | cons line lines ih =>
    simp only [glue, List.flatMap_cons, List.length_append, List.length_cons, crlf, List.length_nil] at ih ⊢
    omega

theorem readResponse_of_announced {toHead : Bool} {r : Response} (hok : ∀ l ∈ r.head, l ≠ [] ∧ ¬ crlf <:+: l)
    (hlen : toHead = false → bodyLength r.head = some r.body.length) (hhead : toHead = true → r.body = []) (rest : Bytes) :
    readResponse toHead (r.bytes ++ rest) = some (r, rest) := by
  have hb : r.bytes ++ rest = glue r.head ++ crlf ++ (r.body ++ rest) := by simp [Response.bytes]
  have hn : r.head.length < (r.bytes ++ rest).length := by
    have := length_glue r.head
    simp only [hb, List.length_append, crlf, List.length_cons, List.length_nil]
    omega
  have hh : readHead (r.bytes ++ rest).length (glue r.head ++ crlf ++ (r.body ++ rest)) = some (r.head, r.body ++ rest) :=
    readHead_glue r.head hok _ hn
  rw [← hb] at hh
  simp only [readResponse, hh]
  cases toHead with
  | true =>
    have he := hhead rfl
    cases r with
    | mk head body =>
      subst he
      simp
  | false =>
    have hle : r.body.length ≤ (r.body ++ rest).length := by simp
    simp only [Bool.false_eq_true, if_false, hlen rfl, hle, if_true, List.take_left', List.drop_left']

/-! ## An announced length is read back -/

theorem digit_toNat {d : Char} (h : d.isDigit = true) : 48 ≤ d.toNat ∧ d.toNat ≤ 57 := by
  simp only [Char.isDigit, Bool.and_eq_true, decide_eq_true_eq] at h
  exact ⟨UInt32.le_iff_toNat_le.mp h.1, UInt32.le_iff_toNat_le.mp h.2⟩

theorem toNat_toUInt8 {n : Nat} (h : n < 256) : n.toUInt8.toNat = n := by
  simp [Nat.toUInt8, h]

theorem isDigit_of_mem_decimalString {n : Nat} {c : UInt8} (hc : c ∈ decimalString n) : isDigit c = true := by
  obtain ⟨d, hd, rfl⟩ := List.mem_map.mp hc
  obtain ⟨h1, h2⟩ := digit_toNat (Nat.isDigit_of_mem_toDigits (by decide) (by decide) hd)
  have hn : d.toNat.toUInt8.toNat = d.toNat := toNat_toUInt8 (by omega)
  simp only [isDigit, Bool.and_eq_true, decide_eq_true_eq, UInt8.le_iff_toNat_le, hn]
  exact ⟨h1, h2⟩

theorem digitsValue_decimalString (n : Nat) : digitsValue (decimalString n) = n := by
  have hd : ∀ d ∈ Nat.toDigits 10 n, d.isDigit = true := fun d => Nat.isDigit_of_mem_toDigits (by decide) (by decide)
  calc digitsValue (decimalString n) = Nat.ofDigitChars 10 (Nat.toDigits 10 n) 0 := by
        unfold digitsValue decimalString
        rw [List.foldl_map, Nat.ofDigitChars_eq_foldl]
        apply List.foldl_ext
        intro v d hm
        obtain ⟨h1, h2⟩ := digit_toNat (hd d hm)
        rw [toNat_toUInt8 (by omega)]
        rfl
    _ = n := Nat.ofDigitChars_ten_toDigits

theorem readNumber_decimalString (n : Nat) : readNumber (decimalString n) = some n := by
  have hne : decimalString n ≠ [] := by
    intro h
    have := Nat.toDigits_ne_nil (List.map_eq_nil_iff.mp h)
    exact this
  have hall : (decimalString n).all isDigit = true := List.all_eq_true.mpr fun c => isDigit_of_mem_decimalString
  simp only [readNumber, hne, hall, ne_eq, not_false_eq_true, and_self, if_true, digitsValue_decimalString]

theorem dropWhile_clear {s : Bytes} (h : ∀ c ∈ s, isBlank c = false) : s.dropWhile isBlank = s := by
  cases s with
  | nil => rfl
  | cons c s => simp [h c (by simp)]

/-- The blank behind a colon is dropped, a value without blanks stays. -/
theorem trim_value {s : Bytes} (h : ∀ c ∈ s, isBlank c = false) : trim (sp :: s) = s := by
  have hs : (sp :: s).dropWhile isBlank = s := by
    rw [List.dropWhile_cons_of_pos (by decide)]
    exact dropWhile_clear h
  unfold trim
  rw [hs, dropWhile_clear (fun c hc => h c (List.mem_reverse.mp hc)), List.reverse_reverse]

theorem isBlank_of_isDigit {c : UInt8} (h : isDigit c = true) : isBlank c = false := by
  simp only [isDigit, Bool.and_eq_true, decide_eq_true_eq, UInt8.le_iff_toNat_le] at h
  simp only [isBlank, Bool.or_eq_false_iff, beq_eq_false_iff_ne]
  constructor
  · intro he
    subst he
    exact absurd h.1 (by decide)
  · intro he
    subst he
    exact absurd h.1 (by decide)

theorem fieldValue_line (name : Bytes) {key : Bytes} (hk : colon ∉ key) (value : Bytes) :
    fieldValue name (key ++ ascii ": " ++ value) = if lower key = lower name then some (trim (sp :: value)) else none := by
  have hc : cut [colon] (key ++ ascii ": " ++ value) = some (key, sp :: value) :=
    cut_one_iff.mpr ⟨by simp [ascii, colon, sp], hk⟩
  simp only [fieldValue, hc]

theorem findSome?_of_mem {α β : Type*} {f : α → Option β} {l : List α} {x : α} {v : β} (hx : x ∈ l) (hf : f x = some v)
    (hu : ∀ y ∈ l, f y = none ∨ f y = some v) : l.findSome? f = some v := by
  induction l with
  | nil => cases hx
  | cons y l ih =>
    rcases hu y (by simp) with h | h
    · rw [List.findSome?_cons_of_isNone (by simp [h])]
      rcases List.mem_cons.mp hx with he | hx
      · rw [← he, hf] at h
        cases h
      · exact ih hx fun z hz => hu z (by simp [hz])
    · simp only [List.findSome?_cons, h]

end BreWebServer.Http.Client
