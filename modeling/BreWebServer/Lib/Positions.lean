/-
  BreWebServer.Lib.Positions — lists read and written by position.

  What an entry replaced or added changes of a list: its entries, what they amount to, a
  sum over them. A multiset of the positions that meet a condition counts these
  (`card_eq_countP`).
-/

import Mathlib.Tactic

namespace BreWebServer.Lib.Positions

variable {α β : Type*}

/-- A list with one entry replaced. -/
theorem getElem?_set_iff {l : List α} {j : Nat} {a c : α} (hj : l[j]? = some a) (i : Nat) :
    (l.set j c)[i]? = if j = i then some c else l[i]? := by
  obtain ⟨hlt, -⟩ := List.getElem?_eq_some_iff.mp hj
  simp [List.getElem?_set, hlt]

/-- A list extended by one entry. -/
theorem getElem?_concat_iff (l : List α) (a : α) (i : Nat) : (l ++ [a])[i]? = if i = l.length then some a else l[i]? := by
  split
  · rename_i he
    subst he
    exact List.getElem?_concat_length
  · rename_i hne
    rcases Nat.lt_or_gt_of_ne hne with hlt | hgt
    · rw [List.getElem?_append_left hlt]
    · rw [List.getElem?_eq_none (by simp; omega), List.getElem?_eq_none (by omega)]

theorem filterMap_set (f : α → Option β) (l : List α) (b : α) {i : Nat} {a : α} (hi : l[i]? = some a) :
    (l.set i b).filterMap f = (l.take i).filterMap f ++ (f b).toList ++ (l.drop (i + 1)).filterMap f ∧
    l.filterMap f = (l.take i).filterMap f ++ (f a).toList ++ (l.drop (i + 1)).filterMap f := by
  obtain ⟨hlt, hget⟩ := List.getElem?_eq_some_iff.mp hi
  have hsplit : l = l.take i ++ a :: l.drop (i + 1) := by
    rw [← hget, List.getElem_cons_drop, List.take_append_drop]
  have hone : ∀ c : α, (c :: l.drop (i + 1)).filterMap f = (f c).toList ++ (l.drop (i + 1)).filterMap f := by
    intro c
    rw [List.filterMap_cons]
    cases f c <;> rfl
  refine ⟨?_, ?_⟩
  · rw [List.set_eq_take_append_cons_drop, if_pos hlt, List.filterMap_append, hone, List.append_assoc]
  · conv_lhs => rw [hsplit]
    rw [List.filterMap_append, hone, List.append_assoc]

theorem sum_set {l : List Nat} {i x : Nat} (h : l[i]? = some x) (y : Nat) : (l.set i y).sum + x = l.sum + y := by
  induction l generalizing i with
  | nil => cases h
  | cons z l ih =>
    cases i with
    | zero =>
      simp only [List.getElem?_cons_zero, Option.some.injEq] at h
      simp only [List.set_cons_zero, List.sum_cons]
      omega
    | succ i =>
      have := ih h
      simp only [List.set_cons_succ, List.sum_cons]
      omega

/-- The multiset of the positions of a list that meet a condition. -/
theorem card_eq_countP {p : α → Bool} (l : List α) : ∀ {m : Multiset Nat},
    (∀ i, m.count i = if l[i]?.any p then 1 else 0) → m.card = l.countP p := by
  induction l using List.reverseRecOn with
  | nil =>
    intro m h
    have : m = 0 := Multiset.eq_zero_of_forall_notMem fun i hi => by
      have := Multiset.count_pos.mpr hi
      rw [h i] at this
      simp at this
    rw [this]
    rfl
  | append_singleton l x ih =>
    intro m h
    -- The last position apart.
    have hrest : (m.filter fun i => ¬ (i = l.length)).card = l.countP p := by
      refine ih ?_
      intro i
      by_cases he : i = l.length
      · subst he
        rw [Multiset.count_filter, if_neg (not_not_intro rfl)]
        simp
      · rw [Multiset.count_filter, if_pos he, h i, getElem?_concat_iff, if_neg he]
    have hlast : (m.filter (· = l.length)).card = if p x then 1 else 0 := by
      rw [Multiset.filter_eq', Multiset.card_replicate, h, List.getElem?_concat_length]
      simp
    have hsplit := congrArg Multiset.card (Multiset.filter_add_not (· = l.length) m)
    rw [Multiset.card_add, hrest, hlast] at hsplit
    rw [List.countP_append, List.countP_singleton, ← hsplit, add_comm]

end BreWebServer.Lib.Positions
