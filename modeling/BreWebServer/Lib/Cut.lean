/-
  BreWebServer.Lib.Cut — cutting a list at the first occurrence of a pattern.

  `cut pat l` is the part of `l` before the first occurrence of `pat` and the part
  after it, or `none` when `pat` does not occur. Proved: what a cut is
  (`cut_eq_some_iff`, `cut_eq_none_iff`); that text behind the first occurrence does not
  move it (`cut_append`); how a pattern cuts a list whose last symbol it has only at its
  own end (`cut_ended_here`, `cut_ended_skip`).
-/

import Mathlib.Data.List.Infix
import Mathlib.Tactic

namespace BreWebServer.Lib

variable {α : Type*} [DecidableEq α]

def cut (pat : List α) : List α → Option (List α × List α)
  | [] => none
  | x :: l =>
    if pat <+: x :: l then some ([], (x :: l).drop pat.length)
    else (cut pat l).map fun r => (x :: r.1, r.2)

theorem cut_eq {pat l a b : List α} (h : cut pat l = some (a, b)) : l = a ++ pat ++ b := by
  induction l generalizing a with
  | nil => cases h
  | cons x l ih =>
    simp only [cut] at h
    split at h
    · rename_i hp
      obtain ⟨t, ht⟩ := hp
      cases h
      simp [← ht]
    · obtain ⟨⟨a', b'⟩, hr, he⟩ := Option.map_eq_some_iff.mp h
      cases he
      have := ih hr
      simpa using this

theorem cut_length {pat l a b : List α} (h : cut pat l = some (a, b)) :
    a.length + pat.length + b.length = l.length := by
  rw [cut_eq h]; simp; omega

theorem cut_eq_none_iff {pat : List α} (hp : pat ≠ []) (l : List α) : cut pat l = none ↔ ¬ pat <:+: l := by
  induction l with
  | nil => simp [cut, hp]
  | cons x l ih =>
    simp only [cut, List.infix_cons_iff, not_or]
    split
    · simp [*]
    · simp [*]

/-- The pattern does not occur before its first occurrence, not even overlapping it. -/
theorem cut_clear {pat l a b : List α} (hp : pat ≠ []) (h : cut pat l = some (a, b)) :
    ¬ pat <:+: a ++ pat.dropLast := by
  have hlen : pat.dropLast.length < pat.length := by
    have := List.length_pos_iff.mpr hp
    simp; omega
  induction l generalizing a with
  | nil => cases h
  | cons x l ih =>
    simp only [cut] at h
    split at h
    · cases h
      intro hi
      have := hi.length_le
      simp only [List.nil_append] at this
      omega
    · rename_i hx
      obtain ⟨⟨a', b'⟩, hr, he⟩ := Option.map_eq_some_iff.mp h
      cases he
      rw [List.cons_append, List.infix_cons_iff]
      intro hcases
      rcases hcases with hpre | hin
      · apply hx
        have hl : x :: l = (x :: (a' ++ pat.dropLast)) ++ ([pat.getLast hp] ++ b') := by
          rw [cut_eq hr]
          conv_lhs => rw [← List.dropLast_append_getLast hp]
          simp
        rw [hl]
        exact hpre.trans (List.prefix_append _ _)
      · exact ih hr hin

/-- A list cut at a place the pattern does not occur before is cut there. -/
theorem cut_at {pat a : List α} (hp : pat ≠ []) (b : List α) (h : ¬ pat <:+: a ++ pat.dropLast) :
    cut pat (a ++ pat ++ b) = some (a, b) := by
  induction a with
  | nil =>
    obtain ⟨y, p, rfl⟩ := List.exists_cons_of_ne_nil hp
    have : y :: p <+: y :: (p ++ b) := ⟨b, by simp⟩
    simp [cut, this]
  | cons x a ih =>
    rw [List.cons_append, List.infix_cons_iff, not_or] at h
    have hx : ¬ pat <+: x :: (a ++ pat ++ b) := by
      intro hpre
      apply h.1
      refine List.prefix_of_prefix_length_le hpre ?_ ?_
      · refine ⟨[pat.getLast hp] ++ b, ?_⟩
        conv_rhs => rw [← List.dropLast_append_getLast hp]
        simp
      · have := List.length_pos_iff.mpr hp
        simp; omega
    simp only [List.cons_append, cut, hx, if_false, ih h.2, Option.map_some]

theorem cut_eq_some_iff {pat l a b : List α} (hp : pat ≠ []) :
    cut pat l = some (a, b) ↔ l = a ++ pat ++ b ∧ ¬ pat <:+: a ++ pat.dropLast := by
  constructor
  · intro h; exact ⟨cut_eq h, cut_clear hp h⟩
  · intro hparts
    obtain ⟨rfl, h⟩ := hparts
    exact cut_at hp b h

/-- What stands behind the first occurrence does not move it. -/
theorem cut_append {pat l a b : List α} (hp : pat ≠ []) (h : cut pat l = some (a, b)) (c : List α) :
    cut pat (l ++ c) = some (a, b ++ c) := by
  obtain ⟨rfl, hc⟩ := (cut_eq_some_iff hp).mp h
  exact (cut_eq_some_iff hp).mpr ⟨by simp, hc⟩

/-! ## Patterns of one or two symbols -/

omit [DecidableEq α] in
theorem infix_singleton {x : α} {l : List α} : [x] <:+: l ↔ x ∈ l := by
  constructor
  · intro hparts
    obtain ⟨s, t, rfl⟩ := hparts
    simp
  · intro h
    obtain ⟨s, t, rfl⟩ := List.append_of_mem h
    exact ⟨s, t, by simp⟩

omit [DecidableEq α] in
theorem infix_pair_concat {x y z : α} (hzy : z ≠ y) {l : List α} : [x, y] <:+: l ++ [z] ↔ [x, y] <:+: l := by
  constructor
  · intro ⟨s, t, h⟩
    rcases List.eq_nil_or_concat t with rfl | ⟨t', w, rfl⟩
    · have h1 : (s ++ [x]) ++ [y] = l ++ [z] := by simpa using h
      have := (List.append_inj' h1 rfl).2
      simp only [List.cons.injEq, and_true] at this
      exact absurd this.symm hzy
    · have h1 : (s ++ [x, y] ++ t') ++ [w] = l ++ [z] := by simpa using h
      exact ⟨s, t', (List.append_inj' h1 rfl).1⟩
  · intro hparts
    obtain ⟨s, t, rfl⟩ := hparts
    exact ⟨s, t ++ [z], by simp⟩

theorem cut_one_iff {x : α} {l a b : List α} : cut [x] l = some (a, b) ↔ l = a ++ x :: b ∧ x ∉ a := by
  rw [cut_eq_some_iff (by simp)]
  simp [infix_singleton]

theorem cut_one_none_iff {x : α} {l : List α} : cut [x] l = none ↔ x ∉ l := by
  rw [cut_eq_none_iff (by simp), infix_singleton]

theorem cut_two_iff {x y : α} (hxy : x ≠ y) {l a b : List α} :
    cut [x, y] l = some (a, b) ↔ l = a ++ x :: y :: b ∧ ¬ [x, y] <:+: a := by
  rw [cut_eq_some_iff (by simp)]
  simp [infix_pair_concat hxy]

/-! ## Patterns that end with a symbol they have nowhere else -/

omit [DecidableEq α] in
/-- Such a pattern ends at the first place the symbol stands, or occurs behind it. -/
theorem infix_ended {p a l : List α} {x : α} (hp : x ∉ p) (ha : x ∉ a) :
    p ++ [x] <:+: a ++ x :: l ↔ p <:+ a ∨ p ++ [x] <:+: l := by
  constructor
  · intro h
    obtain ⟨s, t, h⟩ := h
    have h : (s ++ p) ++ x :: t = a ++ x :: l := by simpa using h
    rcases List.append_eq_append_iff.mp h with ⟨c, hc, hl⟩ | ⟨c, hc, hl⟩
    · cases c with
      | nil => exact .inl ⟨s, by simpa using hc.symm⟩
      | cons y c =>
        cases hl
        exact absurd (by rw [hc]; simp) ha
    · cases c with
      | nil => exact .inl ⟨s, by simpa using hc⟩
      | cons y c =>
        cases hl
        -- The pattern lies behind the symbol, for it has none before its end.
        rcases List.append_eq_append_iff.mp (show s ++ p = (a ++ [x]) ++ c by simpa using hc) with ⟨d, hd, hc'⟩ | ⟨d, hd, hc'⟩
        · rcases List.eq_nil_or_concat d with rfl | ⟨d, y, rfl⟩
          · exact .inr ⟨[], t, by simp [hc']⟩
          · have hy : y = x := by
              have hd : a ++ [x] = (s ++ d) ++ [y] := by simpa using hd
              have := (List.append_inj' hd rfl).2
              simpa using this.symm
            exact absurd (by rw [hc', hy]; simp) hp
        · exact .inr ⟨d, t, by simp [hc']⟩
  · intro h
    rcases h with ⟨s, rfl⟩ | ⟨s, t, rfl⟩
    · exact ⟨s, l, by simp⟩
    · exact ⟨a ++ x :: s, t, by simp⟩

/-- It cuts where the symbol stands first, if the rest of it stands there. -/
theorem cut_ended_here {p a : List α} {x : α} (hp : x ∉ p) (ha : x ∉ a) (l : List α) :
    cut (p ++ [x]) (a ++ p ++ x :: l) = some (a, l) := by
  rw [cut_eq_some_iff (by simp)]
  refine ⟨by simp, ?_⟩
  intro h
  have hx : x ∈ a ++ (p ++ [x]).dropLast := h.subset (show x ∈ p ++ [x] by simp)
  rw [List.dropLast_concat, List.mem_append] at hx
  exact hx.elim ha hp

/-- Else it cuts what stands behind. -/
theorem cut_ended_skip {p a : List α} {x : α} (hp : x ∉ p) (ha : x ∉ a) (hs : ¬ p <:+ a) (l : List α) :
    cut (p ++ [x]) (a ++ x :: l) = (cut (p ++ [x]) l).map fun r => (a ++ x :: r.1, r.2) := by
  cases hc : cut (p ++ [x]) l with
  | none =>
    rw [cut_eq_none_iff (by simp)] at hc
    rw [Option.map_none, cut_eq_none_iff (by simp), infix_ended hp ha, not_or]
    exact ⟨hs, hc⟩
  | some r =>
    obtain ⟨b, c⟩ := r
    obtain ⟨rfl, hb⟩ := (cut_eq_some_iff (by simp)).mp hc
    rw [Option.map_some, cut_eq_some_iff (by simp)]
    refine ⟨by simp, ?_⟩
    have hassoc : (a ++ x :: b) ++ (p ++ [x]).dropLast = a ++ x :: (b ++ (p ++ [x]).dropLast) := by simp
    rw [hassoc, infix_ended hp ha, not_or]
    exact ⟨hs, hb⟩

end BreWebServer.Lib
