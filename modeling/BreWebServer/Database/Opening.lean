/-
  BreWebServer.Database.Opening — an `Init` that throws.

  `Init` empties the queue and overwrites the fields before it opens the first connection,
  and pushes each connection as it opens. If one does not open, the pool is left with what
  was pushed, under the new size, and with the old `_initialized`: an initialised pool goes
  on reporting so with too few connections, one that is not keeps connections that nobody
  can acquire. It is as before exactly when nothing was pushed and there was nothing to
  overwrite (`all_or_nothing_iff`, `failed_init_empties`).
-/

import BreWebServer.Database.Release

namespace BreWebServer.Database

open BreWebServer.Cpp BreWebServer.Lib

namespace PostgrePool

/-- The slots whose connections `Init` opens before it stops. -/
def openedFirst (n : Nat) (opens : Nat → Bool) : List Nat := (List.range n).takeWhile opens

theorem openSlots_failed {opens : Nat → Bool} (slots : List Nat) : ∀ {p : PostgrePool}, (∃ i ∈ slots, opens i = false) →
    openSlots opens slots p =
      (.error .openFailed, { p with pool := p.pool ++ (slots.takeWhile opens).map p.connect }) := by
  induction slots with
  | nil =>
    intro p h
    obtain ⟨i, hi, -⟩ := h
    cases hi
  | cons slot slots ih =>
    intro p h
    cases ho : opens slot with
    | false => simp [openSlots, ho]
    | true =>
      have hrest : ∃ i ∈ slots, opens i = false := by
        obtain ⟨i, hi, hf⟩ := h
        rcases List.mem_cons.mp hi with rfl | hi
        · rw [ho] at hf
          cases hf
        · exact ⟨i, hi, hf⟩
      simp only [openSlots, ho, if_true, ih hrest]
      simp [ho, connect]

/-- `Init` throws for the size 0 and when a connection does not open. -/
theorem init_throws_iff {connInfo : Bytes} {n : Nat} {opens : Nat → Bool} {p : PostgrePool} :
    (init connInfo n opens p).1 ≠ .ok () ↔ n = 0 ∨ ∃ i < n, opens i = false := by
  unfold init
  by_cases hn : n = 0
  · simp [hn]
  · by_cases hf : ∃ i < n, opens i = false
    · have hf' : ∃ i ∈ List.range n, opens i = false := by
        obtain ⟨i, hi, ho⟩ := hf
        exact ⟨i, List.mem_range.mpr hi, ho⟩
      simp [hn, hf, openSlots_failed _ hf']
    · have hall : ∀ i ∈ List.range n, opens i = true := by
        intro i hi
        rw [← Bool.not_eq_false]
        exact fun ho => hf ⟨i, List.mem_range.mp hi, ho⟩
      simp [hn, hf, openSlots_opened _ hall]

/-- What is left of the pool when a connection does not open. -/
theorem init_failed {connInfo : Bytes} {n : Nat} {opens : Nat → Bool} (hn : n ≠ 0) (hf : ∃ i < n, opens i = false)
    (p : PostgrePool) :
    (init connInfo n opens p).2 =
      ⟨(openedFirst n opens).map fun i => ⟨connInfo, i⟩, connInfo, p.initialized, false, n, p.generation + 1⟩ := by
  have hf' : ∃ i ∈ List.range n, opens i = false := by
    obtain ⟨i, hi, ho⟩ := hf
    exact ⟨i, List.mem_range.mpr hi, ho⟩
  rw [init, if_neg hn, openSlots_failed _ hf']
  rfl

theorem openedFirst_nil {n : Nat} (hn : n ≠ 0) (opens : Nat → Bool) : openedFirst n opens = [] ↔ opens 0 = false := by
  obtain ⟨m, rfl⟩ := Nat.exists_eq_succ_of_ne_zero hn
  rw [openedFirst, List.range_succ_eq_map, List.takeWhile_cons]
  cases opens 0 with
  | true => simp
  | false => simp

/-- The size is 0, or the first connection does not open and there is nothing to overwrite:
    an empty queue, the same settings, no `Close` since the last `Init`. -/
def Unaffected (connInfo : Bytes) (n : Nat) (opens : Nat → Bool) (p : PostgrePool) : Prop :=
  n = 0 ∨ (opens 0 = false ∧ p.pool = [] ∧ p.connInfo = connInfo ∧ p.poolSize = n ∧ p.closing = false)

end PostgrePool

namespace Clients

open PostgrePool

/-- The pool that a throwing `Init` is to leave: the one before. A connection opened now is
    another than the one that was queued in its place. -/
structure Restored (n : Nat) (opens : Nat → Bool) (s t : Clients) : Prop where
  queue : t.pool.pool = s.pool.pool
  unopened : n ≠ 0 → openedFirst n opens = []
  connInfo : t.pool.connInfo = s.pool.connInfo
  poolSize : t.pool.poolSize = s.pool.poolSize
  initialized : t.pool.initialized = s.pool.initialized
  closing : t.pool.closing = s.pool.closing
  enough : (s.pool.isInitialized = true → s.pool.poolSize ≤ s.existing) →
    t.pool.isInitialized = true → t.pool.poolSize ≤ t.existing
  unused : (s.pool.initialized = false → s.pool.pool = []) → t.pool.initialized = false → t.pool.pool = []

variable {s t : Clients}

theorem restored_of {n : Nat} {opens : Nat → Bool} (hq : t.pool.pool = s.pool.pool) (ho : n ≠ 0 → openedFirst n opens = [])
    (hc : t.pool.connInfo = s.pool.connInfo) (hn : t.pool.poolSize = s.pool.poolSize)
    (hi : t.pool.initialized = s.pool.initialized) (hcl : t.pool.closing = s.pool.closing) (hg : t.guards = s.guards) :
    Restored n opens s t := by
  have hex : t.existing = s.existing := by
    unfold existing held
    rw [hq, hg]
  have hii : t.pool.isInitialized = s.pool.isInitialized := by rw [isInitialized, isInitialized, hi, hcl]
  refine ⟨hq, ho, hc, hn, hi, hcl, ?_, ?_⟩
  · rw [hii, hn, hex]
    exact id
  · rw [hi, hq]
    exact id

theorem all_or_nothing_iff {connInfo : Bytes} {n : Nat} {opens : Nat → Bool}
    (hs : step s (.init connInfo n opens) = some t) (hthrow : (s.pool.init connInfo n opens).1 ≠ .ok ()) :
    Restored n opens s t ↔ Unaffected connInfo n opens s.pool := by
  obtain rfl := step_init hs
  unfold Unaffected
  by_cases hn : n = 0
  · refine iff_of_true ?_ (.inl hn)
    subst hn
    exact restored_of rfl (fun h => absurd rfl h) rfl rfl rfl rfl rfl
  · have hf := (init_throws_iff.mp hthrow).resolve_left hn
    have hp := @init_failed connInfo n opens hn hf s.pool
    simp only [hn, false_or]
    refine ⟨?_, ?_⟩
    · intro h
      have hnil := h.unopened hn
      have hq := h.queue
      have hc := h.connInfo
      have hsize := h.poolSize
      have hcl := h.closing
      simp only [hp, hnil, List.map_nil] at hq hc hsize hcl
      exact ⟨(openedFirst_nil hn opens).mp hnil, hq.symm, hc.symm, hsize.symm, hcl.symm⟩
    · intro h
      obtain ⟨h0, hq, hc, hsize, hcl⟩ := h
      have hnil := (openedFirst_nil hn opens).mpr h0
      refine restored_of ?_ (fun _ => hnil) ?_ ?_ ?_ ?_ rfl
      · simp only [hp, hnil, hq, List.map_nil]
      · simp only [hp, hc]
      · simp only [hp, hsize]
      · simp only [hp]
      · simp only [hp, hcl]

/-- A second failed `Init` in a row leaves what the first one left: an initialised pool without a connection. -/
theorem emptied_pool_kept : ∃ s t,
    after [.init (ascii "db") 1 fun _ => true, .init (ascii "db") 1 fun _ => false] = some s ∧
    step s (.init (ascii "db") 1 fun _ => false) = some t ∧ s.pool.isInitialized = true ∧ s.pool.pool = [] ∧
    Restored 1 (fun _ => false) s t :=
  ⟨_, _, rfl, rfl, rfl, rfl, (all_or_nothing_iff rfl (by decide)).mpr (.inr (by decide))⟩

/-- An initialised pool of one connection whose second `Init` opens none, and a new pool
    whose first `Init` opens one of two. -/
theorem failed_init_empties :
    (∃ s t, after [.init (ascii "db") 1 fun _ => true] = some s ∧
      step s (.init (ascii "db") 1 fun _ => false) = some t ∧ s.pool.pool.length = 1 ∧
      t.pool.isInitialized = true ∧ t.pool.poolSize = 1 ∧ t.pool.pool = [] ∧ t.guards = ∅ ∧
      ¬ Restored 1 (fun _ => false) s t) ∧
    ∃ t, step new (.init (ascii "db") 2 fun i => i == 0) = some t ∧ t.pool.initialized = false ∧
      t.pool.pool.length = 1 ∧ ¬ Restored 2 (fun i => i == 0) new t := by
  refine ⟨⟨_, _, rfl, rfl, rfl, rfl, rfl, rfl, rfl, ?_⟩, _, rfl, rfl, rfl, ?_⟩
  · intro h
    exact absurd h.queue (by decide)
  · intro h
    exact absurd h.queue (by decide)

end Clients

end BreWebServer.Database
