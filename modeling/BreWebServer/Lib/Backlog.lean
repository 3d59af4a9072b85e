/-
  BreWebServer.Lib.Backlog — a server that serves at most one job at each arrival.

  Things arrive one at a time; `count` says how many jobs are complete once some of them
  have arrived. At each arrival one complete job is served, if one is left; between
  arrivals none is. Proved (`le_served_iff`): `n` jobs have been served exactly when, at
  every moment, the jobs still missing to `n` are no more than the arrivals still to come.
-/

import Mathlib.Tactic

namespace BreWebServer.Lib

variable {α : Type*}

/-- After these arrivals, so many jobs have been served. -/
inductive Served (count : List α → Nat) : List α → Nat → Prop
  | nil : Served count [] 0
  | concat {cs : List α} {c : α} {h : Nat} : Served count cs h →
      Served count (cs ++ [c]) (min (h + 1) (count (cs ++ [c])))

theorem le_served_iff {count : List α → Nat} (h0 : count [] = 0) {cs : List α} {h : Nat} (hs : Served count cs h) :
    ∀ n, n ≤ h ↔ ∀ pre suf, cs = pre ++ suf → n ≤ count pre + suf.length := by
  induction hs with
  | nil =>
    intro n
    constructor
    · intro hn pre suf _
      omega
    · intro hn
      have := hn [] [] rfl
      simpa [h0] using this
  | @concat cs c h _ ih =>
    intro n
    constructor
    · intro hn pre suf he
      rcases List.eq_nil_or_concat suf with rfl | ⟨suf, c', rfl⟩
      · rw [List.append_nil] at he
        rw [← he]
        simp only [List.length_nil]
        omega
      · rw [List.concat_eq_append, ← List.append_assoc] at he
        have hpre := (List.append_inj' he rfl).1
        have := (ih (n - 1)).mp (by omega) pre suf hpre
        simp only [List.concat_eq_append, List.length_append, List.length_singleton]
        omega
    · intro hn
      have hlast := hn (cs ++ [c]) [] (by simp)
      have hearlier : n - 1 ≤ h := by
        apply (ih (n - 1)).mpr
        intro pre suf he
        have := hn pre (suf ++ [c]) (by rw [he, List.append_assoc])
        simp only [List.length_append, List.length_singleton] at this
        omega
      simp only [List.length_nil] at hlast
      omega

end BreWebServer.Lib
