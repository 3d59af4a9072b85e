/-
  BreWebServer.Lib.Reader — resumable readers.

  A reader works on the unread input in rounds: it stops and waits for more input
  without consuming anything (`wait`), gives a result (`halt`), or consumes some input and
  goes on (`next`). `drain` runs rounds until the reader waits or halts. A round function
  is `Resumable` when input arriving behind what a round looked at does not change what
  the round does, and a round that waited is redone identically.

  Proved: draining ends, whatever the fuel (`drain_fuel`); a result once reached stays
  (`drain_append_halt`); a reader that waits goes on as if it had never stopped
  (`drain_append_wait`); so feeding the input in pieces is draining it whole (`feed_drain`).
-/

import Mathlib.Tactic

namespace BreWebServer.Lib

inductive Round (σ ρ α : Type*) where
  | wait (s : σ)
  | halt (r : ρ) (s : σ) (rest : List α)
  | next (s : σ) (rest : List α)

/-- The same round with more input behind what it left. -/
def Round.extend {σ ρ α : Type*} (c : List α) : Round σ ρ α → Round σ ρ α
  | .wait s => .wait s
  | .halt r s rest => .halt r s (rest ++ c)
  | .next s rest => .next s (rest ++ c)

namespace Reader

variable {σ ρ α : Type*} (round : σ → List α → Round σ ρ α)

/-- At most `n` rounds; the result is `none` when the reader waits. -/
def loop : Nat → σ → List α → Option ρ × σ × List α
  | 0, s, b => (none, s, b)
  | n + 1, s, b =>
    match round s b with
    | .wait s' => (none, s', b)
    | .halt r s' rest => (some r, s', rest)
    | .next s' rest => loop n s' rest

def drain (s : σ) (b : List α) : Option ρ × σ × List α := loop round (b.length + 1) s b

/-- Feed pieces one at a time, draining after each, until the reader halts; the pieces it
    has not been fed then stay unread behind its own rest. -/
def feed : σ → List α → List (List α) → Option ρ × σ × List α
  | s, b, [] => (none, s, b)
  | s, b, c :: cs =>
    match drain round s (b ++ c) with
    | (none, s', b') => feed s' b' cs
    | (some r, s', b') => (some r, s', b' ++ cs.flatten)

structure Resumable : Prop where
  shorter : ∀ {s b s' rest}, round s b = .next s' rest → rest.length < b.length
  append : ∀ {s b}, (∀ s', round s b ≠ .wait s') → ∀ c, round s (b ++ c) = (round s b).extend c
  wait_append : ∀ {s b s'}, round s b = .wait s' → ∀ c, round s' (b ++ c) = round s (b ++ c)

variable {round}

theorem drain_wait {s s' : σ} {b : List α} (h : round s b = .wait s') : drain round s b = (none, s', b) := by
  simp [drain, loop, h]

theorem drain_halt {s s' : σ} {b rest : List α} {r : ρ} (h : round s b = .halt r s' rest) :
    drain round s b = (some r, s', rest) := by
  simp [drain, loop, h]

variable (hR : Resumable round)
include hR

theorem loop_fuel (n : Nat) : ∀ {s : σ} {b : List α} {m : Nat}, b.length < n → b.length < m →
    loop round n s b = loop round m s b := by
  induction n with
  | zero => intro s b m h; omega
  | succ n ih =>
    intro s b m hn hm
    obtain ⟨m, rfl⟩ : ∃ k, m = k + 1 := ⟨m - 1, by omega⟩
    simp only [loop]
    cases h : round s b with
    | wait s' => rfl
    | halt r s' rest => rfl
    | next s' rest =>
      have := hR.shorter h
      exact ih (by omega) (by omega)

theorem next_append {s s' : σ} {b rest : List α} (h : round s b = .next s' rest) (c : List α) :
    round s (b ++ c) = .next s' (rest ++ c) := by
  rw [hR.append (by simp [h]), h]; rfl

theorem halt_append {s s' : σ} {b rest : List α} {r : ρ} (h : round s b = .halt r s' rest) (c : List α) :
    round s (b ++ c) = .halt r s' (rest ++ c) := by
  rw [hR.append (by simp [h]), h]; rfl

/-- More fuel than input changes nothing. -/
theorem drain_fuel {s : σ} {b : List α} {n : Nat} (h : b.length < n) : loop round n s b = drain round s b :=
  loop_fuel hR n h (Nat.lt_succ_self _)

theorem drain_next {s s' : σ} {b rest : List α} (h : round s b = .next s' rest) :
    drain round s b = drain round s' rest := by
  have := hR.shorter h
  conv_lhs => simp only [drain, loop, h]
  exact drain_fuel hR this

/-- To show something of every drain, show it of a wait, of a halt, and of a `next`
    whose remaining drain has it. -/
theorem drain_induction {P : σ → List α → Option ρ × σ × List α → Prop}
    (wait : ∀ s b s', round s b = .wait s' → P s b (none, s', b))
    (halt : ∀ s b r s' rest, round s b = .halt r s' rest → P s b (some r, s', rest))
    (next : ∀ s b s' rest, round s b = .next s' rest → P s' rest (drain round s' rest) →
      P s b (drain round s' rest)) (s : σ) (b : List α) : P s b (drain round s b) := by
  induction hn : b.length using Nat.strong_induction_on generalizing s b with
  | _ n ih =>
    cases h : round s b with
    | wait s' => rw [drain_wait h]; exact wait s b s' h
    | halt r s' rest => rw [drain_halt h]; exact halt s b r s' rest h
    | next s' rest =>
      rw [drain_next hR h]
      have := hR.shorter h
      exact next s b s' rest h (ih rest.length (by omega) s' rest rfl)

theorem drain_append_halt {s s' : σ} {b rest : List α} {r : ρ} (h : drain round s b = (some r, s', rest))
    (c : List α) : drain round s (b ++ c) = (some r, s', rest ++ c) := by
  revert h
  refine drain_induction hR (P := fun s b out => out = (some r, s', rest) →
    drain round s (b ++ c) = (some r, s', rest ++ c)) ?_ ?_ ?_ s b
  · intro s b s' _ he; cases he
  · intro s b r s' rest h he
    cases he
    exact drain_halt (halt_append hR h c)
  · intro s b s' rest h ih he
    rw [drain_next hR (next_append hR h c)]
    exact ih he

theorem drain_append_wait {s s' : σ} {b b' : List α} (h : drain round s b = (none, s', b')) (c : List α) :
    drain round s (b ++ c) = drain round s' (b' ++ c) := by
  revert h
  refine drain_induction hR (P := fun s b out => out = (none, s', b') →
    drain round s (b ++ c) = drain round s' (b' ++ c)) ?_ ?_ ?_ s b
  · intro s b s' h he
    cases he
    unfold drain
    simp only [loop, hR.wait_append h c]
  · intro s b r s' rest _ he; cases he
  · intro s b s' rest h ih he
    rw [drain_next hR (next_append hR h c)]
    exact ih he

/-- Feeding the pieces behind an unread `b` is draining `b` with all of them, from any
    state that has already drained `b` in vain. -/
theorem feed_drain (cs : List (List α)) : ∀ {s : σ} {b : List α}, drain round s b = (none, s, b) →
    feed round s b cs = drain round s (b ++ cs.flatten) := by
  induction cs with
  | nil => intro s b h; simp [feed, h]
  | cons c cs ih =>
    intro s b _
    simp only [feed, List.flatten_cons, ← List.append_assoc]
    cases h : drain round s (b ++ c) with
    | mk o q =>
      obtain ⟨s', b'⟩ := q
      cases o with
      | none =>
        have hw := drain_append_wait hR h
        have hs : drain round s' b' = (none, s', b') := by simpa [h] using (hw []).symm
        rw [hw cs.flatten]
        exact ih hs
      | some r => rw [drain_append_halt hR h]

end Reader

end BreWebServer.Lib
