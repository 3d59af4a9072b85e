/-
  BreWebServer.Database.Ownership — who has the connections.

  `Change` says once what an event does to the queue and to what the guards hold; the
  invariants below follow from it.

  (1) Conservation (`slots_conserved`): under one `Init`, whatever the clients do with
  their guards, each slot is in the queue once or held by one guard until `Close`, and
  after `Close` the queue stays empty and `Acquire` throws.

  (2) Generations (`generations_apart_iff`): `Return` looks at the pool's flags, not at
  where a connection comes from, so a guard that outlives a `Close` and an `Init` puts a
  connection of the old pool into the new one. The generations stay apart exactly when no
  guard is released so (`old_connection_queued`).
-/

import BreWebServer.Database.Waiting

namespace BreWebServer.Database

open BreWebServer.Cpp BreWebServer.Lib BreWebServer.Lib.Registry

namespace Clients

open PostgrePool

/-! ## What an event does to the queue and the guards -/

/-- A reading of guards that finds nothing in one that holds nothing. -/
def Reads (f : ConnectionGuard → Option Connection) : Prop := ∀ g, g.held = none → f g = none

theorem reads_held : Reads ConnectionGuard.held := fun _ h => h

theorem reads_heldSince (k : Nat) : Reads (ConnectionGuard.heldSince k) := fun _ h => ConnectionGuard.heldSince_none h k

/-- The targets of the assignments under way are released, and each has one source. -/
structure Vacant (s : Clients) : Prop where
  apart : ∀ p ∈ s.assigning, p.1 ≠ p.2
  released : ∀ p ∈ s.assigning, ∃ g, s.guards.lookup p.1 = some g ∧ g.held = none
  once : (s.assigning.map (·.1)).Nodup

inductive Change (s : Clients) (e : Event) (t : Clients) : Prop
  | opened (connInfo : Bytes) (n : Nat) (opens : Nat → Bool) : e = .init connInfo n opens →
      t = { s with pool := (s.pool.init connInfo n opens).2 } → Change s e t
  /-- What is held passes from guard to guard at most. -/
  | shuffled : e.isInit = false → t.pool = s.pool → (∀ f, Reads f → holdings f t.guards = holdings f s.guards) →
      (∀ id g, e.releases = some id → s.guards.lookup id = some g → g.held = none) → Change s e t
  | took (c : Connection) (cs : List Connection) : e.isInit = false → e.releases = none → s.pool.pool = c :: cs →
      t.pool = { s.pool with pool := cs } →
      (∀ f, Reads f → holdings f t.guards = share (f ⟨true, some c, s.pool.generation⟩) + holdings f s.guards) →
      Change s e t
  | gaveBack (id : GuardId) (g : ConnectionGuard) (c c' : Connection) : e.isInit = false → e.releases = some id →
      s.guards.lookup id = some g → g.held = some c → s.pool.initialized = true → s.pool.closing = false →
      c'.slot = c.slot → (c' = c ∨ c' = s.pool.connect c.slot) → t.pool = { s.pool with pool := s.pool.pool ++ [c'] } →
      (∀ f, Reads f → share (f g) + holdings f t.guards = holdings f s.guards) → Change s e t
  | dropped (id : GuardId) (g : ConnectionGuard) : e.isInit = false → e.releases = some id → s.guards.lookup id = some g →
      (s.pool.initialized = false ∨ s.pool.closing = true) → t.pool = s.pool →
      (∀ f, Reads f → share (f g) + holdings f t.guards = holdings f s.guards) → Change s e t
  | closed : e = .close → s.pool.closes = true →
      t = { s with pool := { s.pool with closing := true, initialized := false, pool := [] } }.notifyAll → Change s e t

variable {s t : Clients}

theorem holdings_attempt {client : ClientId} {id : GuardId} (hid : id ∉ s.guards) (e : Event) (he : e.isInit = false)
    (hr : e.releases = none) {u : Clients} (hp : u.pool = s.pool) (hg : u.guards = s.guards) :
    Change s e (u.attempt client id u.pool.look) := by
  have hnone : ∀ id g, e.releases = some id → s.guards.lookup id = some g → g.held = none := by
    intro id g h
    rw [hr] at h
    cases h
  rcases attempt_cases client id u with ⟨-, ha⟩ | ⟨-, -, ha⟩ | ⟨c, cs, -, hq, ha⟩
  · rw [ha]
    exact .shuffled he hp (fun f _ => by rw [hg]) hnone
  · rw [ha]
    exact .shuffled he hp (fun f _ => by rw [← hg]) hnone
  · rw [ha]
    rw [hp] at hq
    refine .took c cs he hr hq (by rw [hp]; rfl) ?_
    intro f _
    show holdings f (u.guards.insert id _) = _
    rw [hg, hp]
    apply holdings_fill
    intro b hb
    rw [AList.lookup_eq_none.mpr hid] at hb
    cases hb

/-- A guard moved into one that holds nothing. -/
theorem holdings_move {target source : GuardId} {g : ConnectionGuard} (hs : s.guards.lookup source = some g)
    (hne : target ≠ source) (ht : ∀ g', s.guards.lookup target = some g' → g'.held = none)
    {f : ConnectionGuard → Option Connection} (hf : Reads f) :
    holdings f (s.move target source g).guards = holdings f s.guards := by
  show holdings f ((s.guards.insert source g.vacated).insert target g) = _
  have hfree : ∀ g', (s.guards.insert source g.vacated).lookup target = some g' → f g' = none := by
    intro g' hg'
    rw [AList.lookup_insert_ne hne] at hg'
    exact hf g' (ht g' hg')
  rw [holdings_fill f hfree, holdings_empty f hs (hf _ rfl)]

/-- A release, and what the caller then does to the released guard. -/
theorem holdings_release {id : GuardId} {g : ConnectionGuard} {health : Health} {notified : Option ClientId} {u : Clients}
    {e : Event} (he : e.isInit = false) (hr : e.releases = some id) (ho : health ≠ .refused)
    (hid : s.guards.lookup id = some g) (h : s.release id g health notified = some u) (hp : t.pool = u.pool)
    (ht : ∀ f, Reads f → ∀ g', g'.held = none → u.guards = s.guards.insert id g' → holdings f t.guards = holdings f u.guards) :
    Change s e t := by
  have hother : ∀ {id' g'}, e.releases = some id' → s.guards.lookup id' = some g' → g' = g := by
    intro id' g' h1 h2
    rw [hr] at h1
    cases h1
    rw [hid] at h2
    cases h2
    rfl
  rcases release_cases h with ⟨g', hg', rfl, hd⟩ | ⟨c, c', hc, hi, hcl, hslot, hc', hn⟩ | ⟨c, -, -, hh, -⟩
  · have hsum : ∀ f, Reads f → share (f g) + holdings f t.guards = holdings f s.guards := by
      intro f hf
      rw [ht f hf g' hg' rfl]
      exact holdings_empty f hid (hf g' hg')
    have hp' : t.pool = s.pool := hp
    rcases hd with hd | hd
    · apply Change.shuffled he hp'
      · intro f hf
        have := hsum f hf
        rwa [hf g hd, share_none, zero_add] at this
      · intro id' g' h1 h2
        rw [hother h1 h2]
        exact hd
    · exact .dropped id g he hr hid hd hp' hsum
  · have hu : u.pool = { s.pool with pool := s.pool.pool ++ [c'] } ∧ u.guards = s.guards.insert id g.vacated := by
      rcases notifyOne_cases hn with ⟨-, rfl⟩ | ⟨client, -, rfl⟩
      · exact ⟨rfl, rfl⟩
      · exact ⟨rfl, rfl⟩
    refine .gaveBack id g c c' he hr hid hc hi hcl hslot hc' (hp.trans hu.1) ?_
    intro f hf
    rw [ht f hf _ rfl hu.2, hu.2]
    exact holdings_empty f hid (hf _ rfl)
  · exact absurd hh ho

/-! ## Assignments under way -/

theorem vacant_setGuard (hv : Vacant s) {id : GuardId} (hid : ∀ p ∈ s.assigning, id ≠ p.1) (g : ConnectionGuard) :
    Vacant (s.setGuard id g) := by
  refine ⟨hv.apart, ?_, hv.once⟩
  intro p hp
  obtain ⟨g', hg', hempty⟩ := hv.released p hp
  refine ⟨g', ?_, hempty⟩
  show (s.guards.insert id g).lookup p.1 = some g'
  rw [AList.lookup_insert_ne (hid p hp).symm, hg']

theorem apart_of_new (hv : Vacant s) {id : GuardId} (hid : id ∉ s.guards) : ∀ p ∈ s.assigning, id ≠ p.1 := by
  intro p hp heq
  subst heq
  obtain ⟨g, hg, -⟩ := hv.released p hp
  rw [AList.lookup_eq_none.mpr hid] at hg
  cases hg

theorem vacant_attempt (hv : Vacant s) {client : ClientId} {id : GuardId} (hid : id ∉ s.guards) :
    Vacant (s.attempt client id s.pool.look) := by
  rcases attempt_cases client id s with ⟨-, ha⟩ | ⟨-, -, ha⟩ | ⟨c, cs, -, -, ha⟩
  · rw [ha]
    exact hv
  · rw [ha]
    exact ⟨hv.apart, hv.released, hv.once⟩
  · rw [ha]
    exact vacant_setGuard (s := { s with pool := { s.pool with pool := cs } }) ⟨hv.apart, hv.released, hv.once⟩
      (apart_of_new hv hid) _

/-- A release empties its guard or ends the program. -/
theorem release_shape {id : GuardId} {g : ConnectionGuard} {health : Health} {notified : Option ClientId} {u : Clients}
    (h : s.release id g health notified = some u) :
    (∃ g', g'.held = none ∧ u.guards = s.guards.insert id g' ∧ u.assigning = s.assigning ∧
      u.terminated = s.terminated) ∨
    u = { s with terminated := true } := by
  rcases release_cases h with ⟨g', hg', rfl, -⟩ | ⟨c, c', -, -, -, -, -, hn⟩ | ⟨c, -, -, -, rfl⟩
  · exact .inl ⟨g', hg', rfl, rfl, rfl⟩
  · left
    rcases notifyOne_cases hn with ⟨-, rfl⟩ | ⟨client, -, rfl⟩
    · exact ⟨_, rfl, rfl, rfl, rfl⟩
    · exact ⟨_, rfl, rfl, rfl, rfl⟩
  · exact .inr rfl

/-- What the caller of a release does to its guard, once the release has returned. -/
theorem released_then {id : GuardId} {g : ConnectionGuard} {health : Health} {notified : Option ClientId} {u : Clients}
    (hv : Vacant s) (hu : s.usable id = some g)
    (h : s.release id g health notified = some u) :
    Vacant u ∧ (u.terminated = false → u.assigning = s.assigning ∧ ∃ g', g'.held = none ∧ u.guards.lookup id = some g') := by
  obtain ⟨-, hbusy⟩ := usable_some hu
  rcases release_shape h with ⟨g', hg', hguards, hassign, -⟩ | rfl
  · have hv' := vacant_setGuard hv (fun p hp => (hbusy p hp).1) g'
    refine ⟨⟨?_, ?_, ?_⟩, fun _ => ⟨hassign, g', hg', by rw [hguards, AList.lookup_insert]⟩⟩
    · rw [hassign]
      exact hv'.apart
    · rw [hassign, hguards]
      exact hv'.released
    · rw [hassign]
      exact hv'.once
  · exact ⟨⟨hv.apart, hv.released, hv.once⟩, fun ht => by cases ht⟩

/-- A move assignment that has begun: its target is one more guard that was emptied. -/
theorem vacant_assigning {u : Clients} (hv : Vacant u) {target source : GuardId} (hne : target ≠ source)
    (hnew : ∀ p ∈ u.assigning, p.1 ≠ target) (hempty : ∃ g', g'.held = none ∧ u.guards.lookup target = some g') :
    Vacant { u with assigning := (target, source) :: u.assigning } := by
  obtain ⟨g', hl, hg'⟩ := hempty
  refine ⟨?_, ?_, ?_⟩
  · simp only [List.forall_mem_cons]
    exact ⟨hne, hv.apart⟩
  · simp only [List.forall_mem_cons]
    exact ⟨⟨g', hg', hl⟩, hv.released⟩
  · rw [List.map_cons, List.nodup_cons]
    refine ⟨?_, hv.once⟩
    rw [List.mem_map]
    intro hm
    obtain ⟨p, hp, he⟩ := hm
    exact hnew p hp he

/-- The end of a move assignment fills its own target and empties its source. -/
theorem vacant_finished (hv : Vacant s) {target source : GuardId} (hm : (target, source) ∈ s.assigning)
    (g : ConnectionGuard) : Vacant { s.move target source g with assigning := s.assigning.erase (target, source) } := by
  have hperm := List.perm_cons_erase hm
  have hnd := ((hperm.map (·.1)).nodup_iff).mp hv.once
  rw [List.map_cons, List.nodup_cons] at hnd
  refine ⟨fun p hp => hv.apart p (List.mem_of_mem_erase hp), ?_, hnd.2⟩
  intro p hp
  have hpt : p.1 ≠ target := by
    intro he
    have hmem : p.1 ∈ (s.assigning.erase (target, source)).map (·.1) := List.mem_map_of_mem hp
    rw [he] at hmem
    exact hnd.1 hmem
  show ∃ g', ((s.guards.insert source g.vacated).insert target g).lookup p.1 = some g' ∧ g'.held = none
  rw [AList.lookup_insert_ne hpt]
  by_cases hps : p.1 = source
  · rw [hps, AList.lookup_insert]
    exact ⟨_, rfl, rfl⟩
  · rw [AList.lookup_insert_ne hps]
    exact hv.released p (List.mem_of_mem_erase hp)

theorem vacant_step {e : Event} (hv : Vacant s) (hs : step s e = some t) : Vacant t := by
  cases e with
  | init connInfo n opens =>
    rw [step_init hs]
    exact ⟨hv.apart, hv.released, hv.once⟩
  | acquire client id =>
    obtain ⟨hid, ⟨-, rfl⟩ | ⟨-, rfl⟩⟩ := step_acquire hs
    · exact hv
    · exact vacant_attempt hv hid
  | wake client =>
    rw [(step_wake hs).2]
    exact ⟨hv.apart, hv.released, hv.once⟩
  | recheck client id =>
    obtain ⟨-, hid, rfl⟩ := step_recheck hs
    exact vacant_attempt (s := { s with awake := s.awake.erase client }) ⟨hv.apart, hv.released, hv.once⟩ hid
  | construct id =>
    obtain ⟨hid, rfl⟩ := step_construct hs
    exact vacant_setGuard hv (apart_of_new hv hid) _
  | moveConstruct target source =>
    obtain ⟨hid, g, hg, rfl⟩ := step_moveConstruct hs
    obtain ⟨hl, hbusy⟩ := usable_some hg
    exact vacant_setGuard (vacant_setGuard hv (fun p hp => (hbusy p hp).1) _) (apart_of_new hv hid) _
  | moveAssign target source health notified =>
    rcases step_moveAssign hs with ⟨-, rfl⟩ | ⟨hne, g, g', u, hg, -, hu, rfl⟩
    · exact hv
    · obtain ⟨hv', hthen⟩ := released_then hv hg hu
      by_cases ht : u.terminated = true
      · rwa [if_pos ht]
      · obtain ⟨hassign, hempty⟩ := hthen (Bool.eq_false_of_not_eq_true ht)
        rw [if_neg ht]
        refine vacant_assigning hv' hne ?_ hempty
        intro p hp he
        exact ((usable_some hg).2 p (hassign ▸ hp)).1 he.symm
  | finishAssign target source =>
    obtain ⟨hm, g, hl, rfl⟩ := step_finishAssign hs
    exact vacant_finished hv hm g
  | destroy id health notified =>
    obtain ⟨g, u, hg, hu, rfl⟩ := step_destroy hs
    obtain ⟨hv', hthen⟩ := released_then hv hg hu
    cases ht : u.terminated with
    | true => simpa [ht] using hv'
    | false =>
      obtain ⟨hassign, -⟩ := hthen ht
      simp only [Bool.false_eq_true, if_false]
      refine ⟨hv'.apart, ?_, hv'.once⟩
      intro p hp
      obtain ⟨g', hg', hempty⟩ := hv'.released p hp
      have hne : p.1 ≠ id := fun he => ((usable_some hg).2 p (hassign ▸ hp)).1 he.symm
      exact ⟨g', by rw [← hg']; exact AList.lookup_erase_ne hne, hempty⟩
  | close =>
    rcases step_close hs with ⟨-, rfl⟩ | ⟨-, rfl⟩
    · exact hv
    · exact ⟨hv.apart, hv.released, hv.once⟩

/-- Every event makes one of the changes. -/
theorem step_change {e : Event} (hv : Vacant s) (ho : e.OpensSucceed) (hs : step s e = some t) : Change s e t := by
  cases e with
  | init connInfo n opens => exact .opened connInfo n opens rfl (step_init hs)
  | acquire client id =>
    obtain ⟨hid, ⟨-, rfl⟩ | ⟨-, rfl⟩⟩ := step_acquire hs
    · exact .shuffled rfl rfl (fun f _ => rfl) (fun id g h => by cases h)
    · exact holdings_attempt hid _ rfl rfl rfl rfl
  | wake client =>
    obtain ⟨-, rfl⟩ := step_wake hs
    exact .shuffled rfl rfl (fun f _ => rfl) (fun id g h => by cases h)
  | recheck client id =>
    obtain ⟨-, hid, rfl⟩ := step_recheck hs
    exact holdings_attempt hid (u := { s with awake := s.awake.erase client }) _ rfl rfl rfl rfl
  | construct id =>
    obtain ⟨hid, rfl⟩ := step_construct hs
    refine .shuffled rfl rfl ?_ (fun id g h => by cases h)
    intro f hf
    have hfree : ∀ g, s.guards.lookup id = some g → f g = none := by
      intro g hg
      rw [AList.lookup_eq_none.mpr hid] at hg
      cases hg
    show holdings f (s.guards.insert id .empty) = _
    rw [holdings_fill f hfree, hf _ ConnectionGuard.held_empty, share_none, zero_add]
  | moveConstruct target source =>
    obtain ⟨hid, g, hg, rfl⟩ := step_moveConstruct hs
    obtain ⟨hl, -⟩ := usable_some hg
    have hnone := AList.lookup_eq_none.mpr hid
    refine .shuffled rfl rfl (fun f hf => holdings_move hl ?_ ?_ hf) (fun id g h => by cases h)
    · intro heq
      subst heq
      rw [hnone] at hl
      cases hl
    · intro g' hg'
      rw [hnone] at hg'
      cases hg'
  | moveAssign target source health notified =>
    rcases step_moveAssign hs with ⟨he, rfl⟩ | ⟨hne, g, g', u, hg, -, hu, rfl⟩
    · exact .shuffled rfl rfl (fun f _ => rfl) (fun id g h => by simp [Event.releases, he] at h)
    · have hr : (Event.moveAssign target source health notified).releases = some target := by
        simp [Event.releases, hne]
      apply holdings_release rfl hr ho (usable_some hg).1 hu
      · split <;> rfl
      · intro f _ _ _ _
        split <;> rfl
  | finishAssign target source =>
    obtain ⟨hm, g, hl, rfl⟩ := step_finishAssign hs
    obtain ⟨g₀, hg₀, hempty⟩ := hv.released _ hm
    refine .shuffled rfl rfl (fun f hf => ?_) (fun id g h => by cases h)
    apply holdings_move hl (hv.apart _ hm) ?_ hf
    intro g' hg'
    rw [hg₀] at hg'
    cases hg'
    exact hempty
  | destroy id health notified =>
    obtain ⟨g, u, hg, hu, rfl⟩ := step_destroy hs
    apply holdings_release rfl rfl ho (usable_some hg).1 hu
    · split <;> rfl
    · intro f hf g' hg' hins
      split
      · rfl
      · have hl : u.guards.lookup id = some g' := by rw [hins, AList.lookup_insert]
        exact holdings_erase f hl (hf g' hg')
  | close =>
    rcases step_close hs with ⟨-, rfl⟩ | ⟨hc, rfl⟩
    · exact .shuffled rfl rfl (fun f _ => rfl) (fun id g h => by cases h)
    · exact .closed rfl hc rfl

/-! ## What the slots and the guards are -/

/-- What the guards hold. -/
def held (s : Clients) : Multiset Connection := holdings ConnectionGuard.held s.guards

/-- What the guards acquired since the last `Init` hold. -/
def current (s : Clients) : Multiset Connection := holdings (ConnectionGuard.heldSince s.pool.generation) s.guards

/-- What the guards acquired before it hold. -/
def outlived (s : Clients) : Multiset Connection :=
  holdings (fun g => if g.acquired = s.pool.generation then none else g.held) s.guards

def slots (m : Multiset Connection) : Multiset Nat := m.map (·.slot)

/-- A guard acquired before the last `Init` is released, with its connection, into an
    initialised pool. -/
def Stale (s : Clients) (e : Event) : Prop :=
  ∃ id g, e.releases = some id ∧ s.guards.lookup id = some g ∧ g.held ≠ none ∧ g.acquired ≠ s.pool.generation ∧
    s.pool.isInitialized = true

structure Sound (s : Clients) : Prop where
  isOpen : s.pool.initialized = true → s.pool.closing = false
  empty : s.pool.initialized = false → s.pool.pool = []
  slots : s.pool.initialized = true → slots s.pool.pool + slots s.current = Multiset.range s.pool.poolSize
  own : ∀ c, c ∈ s.pool.pool ∨ c ∈ s.current → c.connInfo = s.pool.connInfo
  born : ∀ k, s.pool.generation < k → holdings (ConnectionGuard.heldSince k) s.guards = 0

theorem sound_new : Sound new := by
  refine ⟨(by intro h; cases h), fun _ => rfl, (by intro h; cases h), ?_, fun k _ => rfl⟩
  intro c hc
  rcases hc with hc | hc
  · cases hc
  · exact absurd hc (Multiset.notMem_zero c)

theorem closes_iff (p : PostgrePool) : p.closes = true ↔ p.initialized = true ∨ p.closing = true := by
  simp [closes]

theorem sound_opened {n : Nat} {opens : Nat → Bool} (h : Sound s) (connInfo : Bytes)
    (ho : (Event.init connInfo n opens).OpensSucceed) : Sound { s with pool := (s.pool.init connInfo n opens).2 } := by
  by_cases h0 : n = 0
  · simpa [init, h0] using h
  · have hp : (init connInfo n opens s.pool).2 = _ := init_opened h0 ho s.pool
    have hcur : holdings (ConnectionGuard.heldSince (s.pool.generation + 1)) s.guards = 0 := h.born _ (by omega)
    refine ⟨?_, ?_, ?_, ?_, ?_⟩
    · intro _
      show (init connInfo n opens s.pool).2.closing = false
      rw [hp]
    · intro hi
      have : (init connInfo n opens s.pool).2.initialized = false := hi
      rw [hp] at this
      cases this
    · intro _
      unfold current
      simp only [hp, hcur]
      simp [Clients.slots, Multiset.range, Function.comp_def]
    · intro c hc
      unfold current at hc
      simp only [hp, hcur] at hc ⊢
      rcases hc with hc | hc
      · obtain ⟨i, -, rfl⟩ := List.mem_map.mp hc
        rfl
      · exact absurd hc (Multiset.notMem_zero c)
    · intro k hk
      simp only [hp] at hk
      exact h.born k (by omega)

theorem sound_shuffled (h : Sound s) (hp : t.pool = s.pool)
    (hg : ∀ f, Reads f → holdings f t.guards = holdings f s.guards) : Sound t := by
  have hcur : t.current = s.current := by
    unfold current
    rw [hp, hg _ (reads_heldSince _)]
  refine ⟨by rw [hp]; exact h.isOpen, by rw [hp]; exact h.empty, ?_, ?_, ?_⟩
  · rw [hp, hcur]
    exact h.slots
  · rw [hp, hcur]
    exact h.own
  · intro k hk
    rw [hp] at hk
    rw [hg _ (reads_heldSince k)]
    exact h.born k hk

/-- A connection taken passes from the queue to the guards of this generation. -/
theorem sound_took {c : Connection} {cs : List Connection} (h : Sound s) (hq : s.pool.pool = c :: cs)
    (hp : t.pool = { s.pool with pool := cs })
    (hg : ∀ f, Reads f →
      holdings f t.guards = share (f ⟨true, some c, s.pool.generation⟩) + holdings f s.guards) : Sound t := by
  have hcur : t.current = {c} + s.current := by
    unfold current
    rw [hp, hg _ (reads_heldSince _)]
    simp [ConnectionGuard.heldSince, ConnectionGuard.held]
  have hmem : c ∈ s.pool.pool := by simp [hq]
  refine ⟨by rw [hp]; exact h.isOpen, ?_, ?_, ?_, ?_⟩
  · intro hi
    rw [hp] at hi
    have := h.empty hi
    rw [hq] at this
    cases this
  · intro hi
    rw [hp] at hi
    have hs := h.slots hi
    rw [hq] at hs
    rw [hp, hcur, ← hs]
    simp only [Clients.slots, Multiset.map_add, Multiset.map_singleton, Multiset.map_coe,
      ← Multiset.cons_coe, ← Multiset.singleton_add]
    abel
  · intro c' hc'
    rw [hp] at hc' ⊢
    rw [hcur, Multiset.mem_add, Multiset.mem_singleton] at hc'
    rcases hc' with hc' | rfl | hc'
    · exact h.own c' (.inl (by rw [hq]; exact List.mem_cons_of_mem _ hc'))
    · exact h.own c' (.inl hmem)
    · exact h.own c' (.inr hc')
  · intro k hk
    rw [hp] at hk
    rw [hg _ (reads_heldSince k), h.born k hk]
    have : s.pool.generation ≠ k := by
      have : s.pool.generation < k := hk
      omega
    simp [ConnectionGuard.heldSince, this]

/-- Where a guard lets go of what it holds, no generation's guards hold more than before. -/
theorem born_of_released {g : ConnectionGuard} (h : Sound s)
    (hg : ∀ f, Reads f → share (f g) + holdings f t.guards = holdings f s.guards) :
    ∀ k, s.pool.generation < k → holdings (ConnectionGuard.heldSince k) t.guards = 0 := by
  intro k hk
  have := hg _ (reads_heldSince k)
  rw [h.born k hk] at this
  exact (add_eq_zero.mp this).2

/-- A connection given back by a guard of this generation is queued, or its slot is. -/
theorem sound_gaveBack {g : ConnectionGuard} {c c' : Connection} (h : Sound s) (hgen : g.acquired = s.pool.generation)
    (hheld : g.held = some c) (hi : s.pool.initialized = true) (hslot : c'.slot = c.slot)
    (hc' : c' = c ∨ c' = s.pool.connect c.slot) (hp : t.pool = { s.pool with pool := s.pool.pool ++ [c'] })
    (hg : ∀ f, Reads f → share (f g) + holdings f t.guards = holdings f s.guards) : Sound t := by
  have hcur : {c} + t.current = s.current := by
    unfold current
    rw [hp, ← hg _ (reads_heldSince _)]
    simp [ConnectionGuard.heldSince, hgen, hheld]
  have hown : c'.connInfo = s.pool.connInfo := by
    rcases hc' with rfl | rfl
    · exact h.own c' (.inr (by rw [← hcur]; simp))
    · rfl
  refine ⟨by rw [hp]; exact h.isOpen, ?_, ?_, ?_, by rw [hp]; exact born_of_released h hg⟩
  · intro hf
    rw [hp] at hf
    rw [hi] at hf
    cases hf
  · intro _
    have hs := h.slots hi
    rw [← hcur] at hs
    rw [hp, ← hs]
    simp only [Clients.slots, Multiset.map_add, Multiset.map_singleton, ← Multiset.coe_add, Multiset.coe_singleton, hslot]
    abel
  · intro d hd
    rw [hp] at hd ⊢
    rw [List.mem_append, List.mem_singleton] at hd
    rcases hd with (hd | rfl) | hd
    · exact h.own d (.inl hd)
    · exact hown
    · exact h.own d (.inr (by rw [← hcur]; simp [hd]))

/-- A connection is dropped by a pool that is not initialised. -/
theorem sound_dropped {g : ConnectionGuard} (h : Sound s) (hd : s.pool.initialized = false ∨ s.pool.closing = true)
    (hp : t.pool = s.pool) (hg : ∀ f, Reads f → share (f g) + holdings f t.guards = holdings f s.guards) : Sound t := by
  have hsub : ∀ c ∈ t.current, c ∈ s.current := by
    intro c hc
    unfold current at hc ⊢
    rw [hp] at hc
    rw [← hg _ (reads_heldSince _), Multiset.mem_add]
    exact .inr hc
  refine ⟨by rw [hp]; exact h.isOpen, by rw [hp]; exact h.empty, ?_, ?_, by rw [hp]; exact born_of_released h hg⟩
  · intro hi
    rw [hp] at hi
    have hcl := h.isOpen hi
    rcases hd with hd | hd
    · rw [hi] at hd
      cases hd
    · rw [hcl] at hd
      cases hd
  · intro c hc
    rw [hp] at hc ⊢
    rcases hc with hc | hc
    · exact h.own c (.inl hc)
    · exact h.own c (.inr (hsub c hc))

theorem sound_closed (h : Sound s) :
    Sound { s with pool := { s.pool with closing := true, initialized := false, pool := [] } }.notifyAll := by
  refine ⟨(by intro hi; cases hi), fun _ => rfl, (by intro hi; cases hi), ?_, h.born⟩
  intro c hc
  rcases hc with hc | hc
  · cases hc
  · exact h.own c (.inr hc)

/-- An event that releases no stale guard keeps the pool sound. -/
theorem sound_step {e : Event} (h : Sound s) (ho : e.OpensSucceed) (hn : ¬ Stale s e) (hc : Change s e t) : Sound t := by
  cases hc with
  | opened connInfo n opens he ht =>
    subst he ht
    exact sound_opened h connInfo ho
  | shuffled _ hp hg _ => exact sound_shuffled h hp hg
  | took c cs _ _ hq hp hg => exact sound_took h hq hp hg
  | gaveBack id g c c' _ hr hl hheld hi hcl hslot hc' hp hg =>
    have hgen : g.acquired = s.pool.generation := by
      by_contra hne
      exact hn ⟨id, g, hr, hl, by rw [hheld]; simp, hne, by simp [isInitialized, hi, hcl]⟩
    exact sound_gaveBack h hgen hheld hi hslot hc' hp hg
  | dropped id g _ _ hl hd hp hg => exact sound_dropped h hd hp hg
  | closed _ _ ht =>
    subst ht
    exact sound_closed h

/-! ## One Init -/

theorem idle_of_outlived (h : s.outlived = 0) {id : GuardId} {g : ConnectionGuard} (hg : s.guards.lookup id = some g)
    (hheld : g.held ≠ none) : g.acquired = s.pool.generation := by
  by_contra hne
  obtain ⟨c, hc⟩ := Option.ne_none_iff_exists'.mp hheld
  have hm : c ∈ s.outlived := (mem_holdings _).mpr ⟨id, g, hg, by rw [if_neg hne, hc]⟩
  rw [h] at hm
  exact Multiset.notMem_zero c hm

theorem held_eq_current (h : s.outlived = 0) : s.held = s.current := by
  apply holdings_congr
  intro id g hg
  unfold ConnectionGuard.heldSince
  split
  · rfl
  · rename_i hne
    by_contra hheld
    exact hne (idle_of_outlived h hg hheld)

/-- What holds throughout a run with one `Init`, of `n` connections. -/
structure Owned (n : Nat) (s : Clients) : Prop where
  vacant : Vacant s
  deserted : Deserted s
  sound : Sound s
  outlived : s.outlived = 0
  idle : Untouched s → s.held = 0
  size : s.pool.initialized = true → s.pool.poolSize = n

theorem owned_new (n : Nat) : Owned n new :=
  ⟨⟨by simp [new], by simp [new], by simp [new]⟩, .inr (.inr ⟨rfl, rfl⟩), sound_new, rfl, fun _ => rfl,
    (by intro h; cases h)⟩

theorem Owned.not_stale {n : Nat} (h : Owned n s) (e : Event) : ¬ Stale s e := by
  intro hparts
  obtain ⟨id, g, -, hg, hheld, hne, -⟩ := hparts
  exact hne (idle_of_outlived h.outlived hg hheld)

theorem outlived_step {e : Event} (h : s.outlived = 0) (he : e.isInit = false) (hc : Change s e t) : t.outlived = 0 := by
  have hreads : Reads fun g => if g.acquired = s.pool.generation then none else g.held := by
    intro g hg
    simp [hg]
  cases hc with
  | opened _ _ _ hinit _ =>
    subst hinit
    cases he
  | shuffled _ hp hg _ =>
    unfold outlived
    rw [hp, hg _ hreads]
    exact h
  | took c cs _ _ _ hp hg =>
    unfold outlived
    rw [hp]
    refine (hg _ hreads).trans ?_
    rw [if_pos rfl, share_none, zero_add]
    exact h
  | gaveBack id g c c' _ _ _ _ _ _ _ _ hp hg =>
    unfold outlived
    rw [hp]
    exact (add_eq_zero.mp ((hg _ hreads).trans h)).2
  | dropped id g _ _ _ _ hp hg =>
    unfold outlived
    rw [hp]
    exact (add_eq_zero.mp ((hg _ hreads).trans h)).2
  | closed _ _ ht =>
    subst ht
    exact h

/-- Nothing is held from a pool that has never been initialised. -/
theorem idle_step {e : Event} (h : Sound s) (hidle : Untouched s → s.held = 0) (he : e.isInit = false)
    (hc : Change s e t) : Untouched t → t.held = 0 := by
  intro hu
  cases hc with
  | opened _ _ _ hinit _ =>
    subst hinit
    cases he
  | shuffled _ hp hg _ =>
    rw [Untouched, hp] at hu
    rw [held, hg _ reads_held]
    exact hidle hu
  | took c cs _ _ hq hp _ =>
    rw [Untouched, hp] at hu
    rw [h.empty hu.1] at hq
    cases hq
  | gaveBack _ _ _ _ _ _ _ _ hi _ _ _ hp _ =>
    rw [Untouched, hp] at hu
    rw [hu.1] at hi
    cases hi
  | dropped _ _ _ _ _ _ hp hg =>
    rw [Untouched, hp] at hu
    exact (add_eq_zero.mp ((hg _ reads_held).trans (hidle hu))).2
  | closed _ _ ht =>
    subst ht
    cases hu.2

theorem owned_step {n : Nat} (hn : n ≠ 0) {e : Event} (h : Owned n s)
    (he : e.OpensSucceed ∧ ∀ connInfo m opens, e = .init connInfo m opens → Untouched s ∧ m = n)
    (hs : step s e = some t) : Owned n t := by
  obtain ⟨ho, hinit⟩ := he
  have hc := step_change h.vacant ho hs
  have hd := deserted_step h.deserted (fun _ => .inr ho) hs
  have hsound := sound_step h.sound ho (h.not_stale e) hc
  by_cases hi : e.isInit = true
  · cases e with
    | init connInfo m opens =>
      obtain ⟨hu, rfl⟩ := hinit connInfo m opens rfl
      have hp : (init connInfo m opens s.pool).2 = _ := init_opened hn ho s.pool
      obtain rfl := step_init hs
      refine ⟨vacant_step h.vacant hs, hd, hsound, ?_, ?_, ?_⟩
      · have hle : ∀ c, c ∉ ({ s with pool := (s.pool.init connInfo m opens).2 } : Clients).outlived := by
          intro c hm
          obtain ⟨id, g, hg, hr⟩ := (mem_holdings _).mp hm
          have hheld : g.held = some c := by
            split at hr
            · cases hr
            · exact hr
          have := (mem_holdings _).mpr ⟨id, g, hg, hheld⟩
          rw [show holdings ConnectionGuard.held s.guards = 0 from h.idle hu] at this
          exact Multiset.notMem_zero c this
        exact Multiset.eq_zero_of_forall_notMem hle
      · intro hut
        have := hut.1
        simp only [hp] at this
        cases this
      · intro _
        simp only [hp]
    | _ => cases hi
  · have hi : e.isInit = false := by simpa using hi
    refine ⟨vacant_step h.vacant hs, hd, hsound, outlived_step h.outlived hi hc, idle_step h.sound h.idle hi hc, ?_⟩
    intro hinitialized
    cases step_turn hs with
    | opened _ _ _ hopened _ _ _ =>
      subst hopened
      cases hi
    | apart _ hp _ _ | woke _ _ _ hp _ _ | threw _ _ hp _ _ | waits _ _ _ _ hp _ _ =>
      rw [hp] at hinitialized ⊢
      exact h.size hinitialized
    | took _ _ _ _ _ hp _ _ | queued _ _ _ _ hp _ =>
      rw [hp] at hinitialized ⊢
      exact h.size hinitialized
    | closed _ _ hp _ _ =>
      rw [hp] at hinitialized
      cases hinitialized

/-- `Owned`, spelt out while the pool is open. -/
theorem Owned.slots_eq {n : Nat} (h : Owned n s) (hi : s.pool.initialized = true) :
    slots s.pool.pool + slots s.held = Multiset.range n := by
  rw [held_eq_current h.outlived, h.sound.slots hi, h.size hi]

/-- An open pool stays open until `Close`. -/
theorem open_step {e : Event} (h : s.pool.initialized = true) (he : e.isInit = false ∧ e ≠ .close)
    (hs : step s e = some t) : t.pool.initialized = true := by
  cases step_turn hs with
  | opened _ _ _ hopened _ _ _ =>
    subst hopened
    cases he.1
  | apart _ hp _ _ | woke _ _ _ hp _ _ | threw _ _ hp _ _ | waits _ _ _ _ hp _ _ => rwa [hp]
  | took _ _ _ _ _ hp _ _ | queued _ _ _ _ hp _ =>
    rw [hp]
    exact h
  | closed hclose _ _ _ _ => exact absurd hclose he.2

theorem closes_step {e : Event} (h : s.pool.closes = true) (he : e.isInit = false) (hs : step s e = some t) :
    t.pool.closes = true := by
  cases step_turn hs with
  | opened _ _ _ hopened _ _ _ =>
    subst hopened
    cases he
  | apart _ hp _ _ | woke _ _ _ hp _ _ | threw _ _ hp _ _ | waits _ _ _ _ hp _ _ => rwa [hp]
  | took _ _ _ _ _ hp _ _ | queued _ _ _ _ hp _ =>
    rw [hp]
    exact h
  | closed _ _ hp _ _ =>
    rw [hp]
    rfl

/-- Closed: nothing is queued and nobody sleeps. -/
structure Shut (s : Clients) : Prop where
  uninitialized : s.pool.initialized = false
  closing : s.pool.closing = true
  empty : s.pool.pool = []
  awake : s.blocked = 0

/-- A closed pool stays closed until the next `Init`. -/
theorem shut_step {e : Event} (h : Shut s) (he : e.isInit = false) (hs : step s e = some t) : Shut t := by
  have keep : t.pool = s.pool → t.blocked = 0 → Shut t := by
    intro hp hb
    exact ⟨by rw [hp, h.uninitialized], by rw [hp, h.closing], by rw [hp, h.empty], hb⟩
  cases step_turn hs with
  | opened _ _ _ hopened _ _ _ =>
    subst hopened
    cases he
  | apart _ hp hb _ | threw _ _ hp hb _ => exact keep hp (hb.trans h.awake)
  | woke client _ hm hp _ _ =>
    rw [h.awake] at hm
    exact absurd hm (Multiset.notMem_zero client)
  | waits _ _ hc _ _ _ _ | took _ _ _ hc _ _ _ _ | queued _ _ _ hc _ _ =>
    rw [h.closing] at hc
    cases hc
  | closed _ _ hp hb _ => exact ⟨by rw [hp], by rw [hp], by rw [hp], hb⟩

theorem shut_close (h : s.pool.closes = true) (hs : step s .close = some t) : Shut t := by
  rcases step_close hs with ⟨hc, -⟩ | ⟨-, rfl⟩
  · rw [h] at hc
    cases hc
  · exact ⟨rfl, rfl, rfl, rfl⟩

/-- A closed pool gives no connection and takes none. -/
theorem Shut.refuses (h : Shut s) : s.pool.acquire = .threw .notInitialized ∧ s.pool.look = .threw .closing ∧
    ∀ connection health, s.pool.giveBack connection health = .dropped := by
  refine ⟨by simp [acquire, h.uninitialized], by simp [look, h.closing], ?_⟩
  intro connection health
  cases connection <;> simp [giveBack, h.uninitialized]

/-- The steps of a run with one `Init` before and after it. -/
theorem takes_init {before during : List Event} {connInfo : Bytes} {n : Nat} {opens : Nat → Bool}
    (hone : ∀ e ∈ before ++ during, e.isInit = false) {u : Clients} {e : Event}
    (ht : Machine.Takes step new (before ++ .init connInfo n opens :: during) u e) :
    ∀ c m o, e = .init c m o → Untouched u ∧ m = n := by
  intro c m o heq
  subst heq
  have hcount : (before ++ .init connInfo n opens :: during).countP Event.isInit ≤ 1 := by
    have h0 : (before ++ during).countP Event.isInit = 0 := List.countP_eq_zero.mpr fun e he => by simp [hone e he]
    rw [List.countP_append] at h0 ⊢
    rw [List.countP_cons_of_pos rfl]
    omega
  refine ⟨untouched_at_init hcount ht rfl, ?_⟩
  obtain ⟨pre, post, hes, -⟩ := ht
  have hm : Event.init c m o ∈ before ++ .init connInfo n opens :: during := by simp [hes]
  simp only [List.mem_append, List.mem_cons] at hm
  rcases hm with hm | hm | hm
  · exact absurd (hone _ (List.mem_append_left _ hm)) (by simp [Event.isInit])
  · cases hm
    rfl
  · exact absurd (hone _ (List.mem_append_right _ hm)) (by simp [Event.isInit])

section OneInit

variable {before during : List Event} {connInfo : Bytes} {n : Nat} {opens : Nat → Bool}

theorem owned_visits (hn : n ≠ 0) (hone : ∀ e ∈ before ++ during, e.isInit = false)
    (hopens : ∀ e ∈ before ++ .init connInfo n opens :: during, e.OpensSucceed)
    (hv : Machine.Visits step new (before ++ .init connInfo n opens :: during) s) : Owned n s := by
  refine Machine.visits_invariant (owned_step hn) (owned_new n) ?_ hv
  intro u e ht
  refine ⟨?_, takes_init hone ht⟩
  obtain ⟨pre, post, hes, -⟩ := ht
  exact hopens e (by simp [hes])

/-- Just after the `Init`. -/
theorem initialized_after (hn : n ≠ 0) (ho : (Event.init connInfo n opens).OpensSucceed)
    (hs : step s (.init connInfo n opens) = some t) : t.pool.initialized = true := by
  have hp : (init connInfo n opens s.pool).2 = _ := init_opened hn ho s.pool
  rw [step_init hs]
  simp only [hp]

theorem slots_conserved (h : after (before ++ .init connInfo n opens :: during) = some s) (hn : n ≠ 0)
    (hone : ∀ e ∈ before ++ during, e.isInit = false)
    (hopens : ∀ e ∈ before ++ .init connInfo n opens :: during, e.OpensSucceed) :
    (.close ∉ during → slots s.pool.pool + slots s.held = Multiset.range n ∧
      s.pool.availableCount + Multiset.card s.held = n ∧ s.pool.isInitialized = true) ∧
    (∀ t e u, Machine.Takes step new (before ++ .init connInfo n opens :: during) t e → step t e = some u →
      Multiset.card t.blocked < Multiset.card u.blocked → slots t.held = Multiset.range n) ∧
    (.close ∈ during → s.pool.pool = [] ∧ s.blocked = 0 ∧ s.pool.acquire = .threw .notInitialized ∧
      s.pool.look = .threw .closing ∧ ∀ connection health, s.pool.giveBack connection health = .dropped) := by
  have howned := owned_visits hn hone hopens ⟨_, [], by simp, h⟩
  have hduring : ∀ e ∈ during, e.isInit = false := fun e he => hone e (List.mem_append_right _ he)
  obtain ⟨t, ht, hrun⟩ := Option.bind_eq_some_iff.mp ((Machine.run_append _ _ _).symm.trans h)
  obtain ⟨u, hu, hrun⟩ := Option.bind_eq_some_iff.mp hrun
  have hopen := initialized_after hn (hopens _ (by simp)) hu
  refine ⟨?_, ?_, ?_⟩
  · intro hclose
    have hi : s.pool.initialized = true := by
      apply Machine.run_invariant_on open_step during ?_ hopen hrun
      intro e he
      exact ⟨hduring e he, by rintro rfl; exact hclose he⟩
    have hslots := howned.slots_eq hi
    refine ⟨hslots, ?_, by simp [isInitialized, hi, howned.sound.isOpen hi]⟩
    have hcard := congrArg Multiset.card hslots
    simpa [slots, availableCount] using hcard
  · intro t e u ht hu hb
    have howned : Owned n t := by
      obtain ⟨pre, post, hes, hpre⟩ := ht
      exact owned_visits hn hone hopens ⟨pre, e :: post, hes, hpre⟩
    obtain ⟨hp, hi⟩ := starts_waiting howned.deserted hu hb
    have hslots := howned.slots_eq hi
    rw [hp] at hslots
    simpa [slots] using hslots
  · intro hclose
    obtain ⟨pre, post, rfl⟩ := List.append_of_mem hclose
    obtain ⟨v, hv, hrun⟩ := Option.bind_eq_some_iff.mp ((Machine.run_append _ _ _).symm.trans hrun)
    obtain ⟨w, hw, hrun⟩ := Option.bind_eq_some_iff.mp hrun
    have hcloses : v.pool.closes = true :=
      Machine.run_invariant_on closes_step pre (fun e he => hduring e (by simp [he])) ((closes_iff _).mpr (.inl hopen)) hv
    have hshut := shut_close hcloses hw
    have hfinal : Shut s := Machine.run_invariant_on shut_step post (fun e he => hduring e (by simp [he])) hshut hrun
    exact ⟨hfinal.empty, hfinal.awake, hfinal.refuses⟩

end OneInit

/-- Two connections. A guard is assigned over another, whose dead connection is replaced;
    then both are out and a third client waits for the second's. -/
def assignedOver : List Event :=
  [.acquire 1 1, .acquire 2 2, .moveAssign 1 2 .reopened none, .finishAssign 1 2, .acquire 3 3, .acquire 4 4,
    .destroy 3 .alive (some 4), .recheck 4 4]

theorem assignedOver_conserved : ∃ s, after ([.close] ++ .init [1] 2 (fun _ => true) :: assignedOver) = some s ∧
    slots s.pool.pool + slots s.held = Multiset.range 2 ∧ s.pool.availableCount + Multiset.card s.held = 2 ∧
    s.pool.isInitialized = true := by
  have hv : (after ([.close] ++ .init [1] 2 (fun _ => true) :: assignedOver)).isSome = true := by decide
  obtain ⟨s, hs⟩ := Option.isSome_iff_exists.mp hv
  refine ⟨s, hs, (slots_conserved hs (by decide) (by decide) ?_).1 ?_⟩
  · simp [assignedOver, Event.OpensSucceed]
  · simp [assignedOver]

/-! ## Generations -/

/-- The queue and the guards acquired since the last `Init` fit the pool, and what is
    queued was opened with its connection string. -/
def Unmixed (s : Clients) : Prop :=
  s.pool.pool.length + Multiset.card s.current ≤ s.pool.poolSize ∧ ∀ c ∈ s.pool.pool, c.connInfo = s.pool.connInfo

theorem Sound.unmixed (h : Sound s) (hi : s.pool.initialized = true) : Unmixed s := by
  refine ⟨?_, fun c hc => h.own c (.inl hc)⟩
  have hcard := congrArg Multiset.card (h.slots hi)
  simp only [Clients.slots, Multiset.card_add, Multiset.card_map, Multiset.coe_card, Multiset.card_range] at hcard
  exact hcard.le

/-- Acquired before the last `Init` or `Close`. -/
def Outdated (s : Clients) (g : ConnectionGuard) : Prop :=
  g.acquired ≠ s.pool.generation ∨ s.pool.initialized = false

/-- The event releases an outdated guard. -/
def ReleasesOutdated (s : Clients) (e : Event) : Prop :=
  ∃ id g, e.releases = some id ∧ s.guards.lookup id = some g ∧ Outdated s g

theorem outdated_kept {e : Event} (hn : ¬ Stale s e) (hr : ReleasesOutdated s e) (hc : Change s e t) :
    t.pool.pool = s.pool.pool := by
  obtain ⟨id, g, hid, hg, ho⟩ := hr
  cases hc with
  | opened _ _ _ he _ =>
    subst he
    cases hid
  | shuffled _ hp _ _ => rw [hp]
  | took _ _ _ he _ _ _ =>
    rw [he] at hid
    cases hid
  | gaveBack id' g' c c' _ he hl hheld hi hcl _ _ _ _ =>
    rw [he] at hid
    cases hid
    rw [hl] at hg
    cases hg
    rcases ho with ho | ho
    · exact absurd ⟨id, g, he, hl, by simp [hheld], ho, by simp [isInitialized, hi, hcl]⟩ hn
    · rw [hi] at ho
      cases ho
  | dropped _ _ _ _ _ _ hp _ => rw [hp]
  | closed he _ _ =>
    subst he
    cases hid

/-- A stale guard's connection is queued. -/
theorem stale_queued {e : Event} (h : Stale s e) (hc : Change s e t) : t.pool.pool ≠ s.pool.pool := by
  obtain ⟨id, g, hid, hg, hheld, hne, hi⟩ := h
  cases hc with
  | opened _ _ _ he _ =>
    subst he
    cases hid
  | shuffled _ _ _ hnone => exact absurd (hnone id g hid hg) hheld
  | took _ _ _ he _ _ _ =>
    rw [he] at hid
    cases hid
  | gaveBack _ _ _ _ _ _ _ _ _ _ _ _ hp _ => simp [hp]
  | dropped _ _ _ _ _ hd _ _ => simp_all [isInitialized]
  | closed he _ _ =>
    subst he
    cases hid

theorem generations_apart_iff {es : List Event} (h : after es = some s) (hopens : ∀ e ∈ es, e.OpensSucceed) :
    ((∀ t, Machine.Visits step new es t → t.pool.isInitialized = true → Unmixed t) ∧
      ∀ t e u, Machine.Takes step new es t e → step t e = some u → ReleasesOutdated t e → u.pool.pool = t.pool.pool) ↔
    ∀ t e, Machine.Takes step new es t e → ¬ Stale t e := by
  have hok : ∀ {t e}, Machine.Takes step new es t e → e.OpensSucceed := by
    intro t e hparts
    obtain ⟨pre, post, hes, -⟩ := hparts
    exact hopens e (by simp [hes])
  have hvacant : ∀ {t}, Machine.Visits step new es t → Vacant t := by
    intro t hparts
    obtain ⟨pre, -, -, hpre⟩ := hparts
    exact Machine.run_invariant vacant_step pre (owned_new 0).vacant hpre
  have hvisits : ∀ {t e}, Machine.Takes step new es t e → Machine.Visits step new es t := by
    intro t e ⟨pre, post, hes, hpre⟩
    exact ⟨pre, e :: post, hes, hpre⟩
  constructor
  · intro hparts t e ht hstale
    obtain ⟨-, hkept⟩ := hparts
    obtain ⟨u, hu⟩ := Machine.takes_step h ht
    have hq := stale_queued hstale (step_change (hvacant (hvisits ht)) (hok ht) hu)
    obtain ⟨id, g, hid, hg, -, hne, -⟩ := hstale
    exact hq (hkept t e u ht hu ⟨id, g, hid, hg, .inl hne⟩)
  · intro hn
    refine ⟨?_, ?_⟩
    · intro t hv hi
      have hstep : ∀ {s e t}, Vacant s ∧ Sound s → e.OpensSucceed ∧ ¬ Stale s e → step s e = some t → Vacant t ∧ Sound t :=
        fun hs he ht => ⟨vacant_step hs.1 ht, sound_step hs.2 he.1 he.2 (step_change hs.1 he.1 ht)⟩
      have hsound := Machine.visits_invariant hstep ⟨(owned_new 0).vacant, sound_new⟩ (fun t e ht => ⟨hok ht, hn t e ht⟩) hv
      simp only [isInitialized, Bool.and_eq_true] at hi
      exact hsound.2.unmixed hi.1
    · intro t e u ht hu hr
      exact outdated_kept (hn t e ht) hr (step_change (hvacant (hvisits ht)) (hok ht) hu)

/-- `Init`, `Acquire`, `Close`, `Init` with another connection string, and the guard goes. -/
def outliving : List Event :=
  [.init [1] 1 fun _ => true, .acquire 1 1, .close, .init [2] 1 fun _ => true, .destroy 1 .alive none]

theorem old_connection_queued : ∃ s, after outliving = some s ∧ s.pool.isInitialized = true ∧
    s.pool.poolSize < s.pool.pool.length ∧ ∃ c ∈ s.pool.pool, c.connInfo ≠ s.pool.connInfo := by
  have hv : (after outliving).map (·.pool) = some ⟨[⟨[2], 0⟩, ⟨[1], 0⟩], [2], true, false, 1, 2⟩ := by decide
  obtain ⟨s, hs, hp⟩ := Option.map_eq_some_iff.mp hv
  refine ⟨s, hs, ?_⟩
  simp only [hp]
  decide

theorem outliving_mixes : ∃ s, after outliving = some s ∧
    (((∀ t, Machine.Visits step new outliving t → t.pool.isInitialized = true → Unmixed t) ∧
      ∀ t e u, Machine.Takes step new outliving t e → step t e = some u → ReleasesOutdated t e →
        u.pool.pool = t.pool.pool) ↔
      ∀ t e, Machine.Takes step new outliving t e → ¬ Stale t e) := by
  have hv : (after outliving).isSome = true := by decide
  obtain ⟨s, hs⟩ := Option.isSome_iff_exists.mp hv
  exact ⟨s, hs, generations_apart_iff hs (by simp [outliving, Event.OpensSucceed])⟩

end Clients

end BreWebServer.Database
