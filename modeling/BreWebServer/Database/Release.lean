/-
  BreWebServer.Database.Release — giving a connection back.

  `Release` runs where nothing may be thrown: in a guard's destructor, during unwinding
  too, and in its move assignment. `Return` opens a new connection in the place of a dead
  one and lets that throw. A release returns, keeps the slot and leaves every free slot to
  be acquired, unless it holds a dead connection of an initialised pool and no other opens:
  then the program ends (`release_iff`, `dead_database_terminates`).
-/

import BreWebServer.Database.Ownership

namespace BreWebServer.Database

open BreWebServer.Cpp BreWebServer.Lib BreWebServer.Lib.Registry

namespace Clients

open PostgrePool

/-- The slots in existence: connections queued and connections held. -/
def existing (s : Clients) : Nat := s.pool.pool.length + s.held.card

/-- Every slot that is not held can be acquired at once, one after the other. -/
def Acquirable (s : Clients) : Prop :=
  ∃ es u, (∀ e ∈ es, ∃ client id, e = .acquire client id) ∧ Machine.run step s es = some u ∧ u.pool.pool = [] ∧
    u.held.card = s.existing

/-- What a release is to be: it returns, the slot stays, and those that are free can be
    acquired. -/
structure ReleasesSafely (s t : Clients) : Prop where
  returns : t.terminated = false
  kept : s.pool.isInitialized = true → t.existing = s.existing
  again : s.pool.isInitialized = true → t.Acquirable

/-- The outcome of the connection attempt that the event may make in `Return`. -/
def Event.health : Event → Option Health
  | .moveAssign _ _ health _ => some health
  | .destroy _ health _ => some health
  | _ => none

/-- The event releases a guard that holds a connection of an initialised pool, the
    connection is no longer open, and another one does not open. -/
def Refused (s : Clients) (e : Event) : Prop :=
  e.health = some .refused ∧ s.pool.isInitialized = true ∧
    ∃ id g, e.releases = some id ∧ s.guards.lookup id = some g ∧ g.held ≠ none

variable {s t : Clients}

theorem isInitialized_iff (p : PostgrePool) : p.isInitialized = true ↔ p.initialized = true ∧ p.closing = false := by
  simp [isInitialized]

/-! ## The slots after a release -/

/-- What a release that returns leaves: an empty guard, and as many slots. -/
structure Kept (s : Clients) (id : GuardId) (t : Clients) : Prop where
  returns : t.terminated = s.terminated
  initialized : t.pool.isInitialized = s.pool.isInitialized
  existing : s.pool.isInitialized = true → t.existing = s.existing
  emptied : ∃ g, t.guards.lookup id = some g ∧ g.held = none

theorem kept_of_queued {id : GuardId} {g : ConnectionGuard} {c c' : Connection} (hid : s.guards.lookup id = some g)
    (hc : g.held = some c) (hp : t.pool = { s.pool with pool := s.pool.pool ++ [c'] })
    (hg : t.guards = s.guards.insert id g.vacated) (ht : t.terminated = s.terminated) : Kept s id t := by
  refine ⟨ht, by rw [hp]; rfl, ?_, g.vacated, by rw [hg, AList.lookup_insert], rfl⟩
  intro _
  have hheld : share g.held + t.held = s.held := by
    unfold held
    rw [hg]
    exact holdings_empty _ hid rfl
  have hcard := congrArg Multiset.card hheld
  rw [hc, share_some, Multiset.card_add, Multiset.card_singleton] at hcard
  unfold existing
  rw [hp, ← hcard, List.length_append, List.length_singleton]
  omega

theorem release_kept {id : GuardId} {g : ConnectionGuard} {health : Health} {notified : Option ClientId}
    (hid : s.guards.lookup id = some g) (h : s.release id g health notified = some t)
    (hn : ¬ (health = .refused ∧ s.pool.isInitialized = true ∧ g.held ≠ none)) : Kept s id t := by
  rcases release_cases h with ⟨g', hg', rfl, hd⟩ | ⟨c, c', hc, -, -, -, -, hq⟩ | ⟨c, hc, hi, hh, -⟩
  · refine ⟨rfl, rfl, ?_, g', AList.lookup_insert _, hg'⟩
    intro hi
    rw [isInitialized_iff] at hi
    rcases hd with hd | hd | hd
    · have hheld : share g.held + (s.setGuard id g').held = s.held := holdings_empty _ hid hg'
      rw [hd, share_none, zero_add] at hheld
      unfold existing
      rw [hheld]
      rfl
    · rw [hi.1] at hd
      cases hd
    · rw [hi.2] at hd
      cases hd
  · rcases notifyOne_cases hq with ⟨-, rfl⟩ | ⟨client, -, rfl⟩
    · exact kept_of_queued hid hc rfl rfl rfl
    · exact kept_of_queued hid hc rfl rfl rfl
  · exact absurd ⟨hh, (isInitialized_iff _).mpr hi, by rw [hc]; simp⟩ hn

/-- `Return` throws where nothing may be thrown. -/
theorem release_refused {id : GuardId} {g : ConnectionGuard} {notified : Option ClientId}
    (h : s.release id g .refused notified = some t) (hi : s.pool.isInitialized = true) (hg : g.held ≠ none) :
    t.terminated = true := by
  rw [isInitialized_iff] at hi
  obtain ⟨c, hc⟩ := Option.ne_none_iff_exists'.mp hg
  have hthrow : s.pool.giveBack g.connection .refused = .threw := by
    simp [giveBack, ConnectionGuard.connection_of_held hc, hi.1, hi.2]
  rw [release, if_neg hg, hthrow] at h
  cases h
  rfl

/-! ## Acquiring what is free -/

theorem acquirable_of (n : Nat) : ∀ {s : Clients}, s.terminated = false → s.pool.isInitialized = true →
    s.pool.pool.length = n → s.Acquirable := by
  induction n with
  | zero =>
    intro s _ _ hn
    have hp : s.pool.pool = [] := List.length_eq_zero_iff.mp hn
    refine ⟨[], s, by simp, rfl, hp, ?_⟩
    rw [existing, hp, List.length_nil, Nat.zero_add]
  | succ n ih =>
    intro s hlive hi hn
    obtain ⟨c, cs, hp⟩ := List.exists_cons_of_length_pos (by omega : 0 < s.pool.pool.length)
    obtain ⟨client, hclient⟩ := Infinite.exists_notMem_finset (s.blocked + s.awake).toFinset
    obtain ⟨id, hid⟩ := Infinite.exists_notMem_finset s.guards.keys.toFinset
    have hwaits : client ∉ s.blocked ∧ client ∉ s.awake := by
      simpa [Multiset.mem_toFinset] using hclient
    have hfree : id ∉ s.guards := fun hm => hid (List.mem_toFinset.mpr (AList.mem_keys.mp hm))
    have hi' := (isInitialized_iff s.pool).mp hi
    -- The client takes the first connection of the queue.
    let u : Clients := { s with pool := { s.pool with pool := cs } }.setGuard id ⟨true, some c, s.pool.generation⟩
    have hstep : step s (.acquire client id) = some u := by
      simp [step, hlive, perform, hwaits, hfree, acquire, look, hi'.1, hi'.2, hp, attempt, u]
    have hheld : u.held = {c} + s.held := by
      apply holdings_fill
      intro g hg
      rw [AList.lookup_eq_none.mpr hfree] at hg
      cases hg
    have hexisting : u.existing = s.existing := by
      have hpu : u.pool.pool = cs := rfl
      rw [existing, existing, hheld, hpu, hp, Multiset.card_add, Multiset.card_singleton, List.length_cons]
      omega
    have hcs : u.pool.pool.length = n := by
      have hlen := congrArg List.length hp
      rw [List.length_cons] at hlen
      show cs.length = n
      omega
    obtain ⟨es, v, hes, hrun, hempty, hall⟩ := ih (s := u) hlive hi hcs
    refine ⟨.acquire client id :: es, v, ?_, ?_, hempty, hall.trans hexisting⟩
    · rw [List.forall_mem_cons]
      exact ⟨⟨client, id, rfl⟩, hes⟩
    · rw [Machine.run, hstep]
      exact hrun

/-! ## When a release is safe -/

theorem safe_of_kept {id : GuardId} {u : Clients} (hlive : s.terminated = false) (h : Kept s id u)
    (hp : t.pool = u.pool) (hh : t.held = u.held) (ht : t.terminated = u.terminated) : ReleasesSafely s t := by
  have hex : t.existing = u.existing := by rw [existing, existing, hp, hh]
  have hlive' : t.terminated = false := ht.trans (h.returns.trans hlive)
  refine ⟨hlive', fun hi => hex.trans (h.existing hi), ?_⟩
  intro hi
  refine acquirable_of _ hlive' ?_ rfl
  rw [hp, h.initialized]
  exact hi

/-- An event that releases a guard does it, and then adds to the assignments under way or
    destroys the guard. -/
theorem step_releases {e : Event} {id : GuardId} (hs : step s e = some t) (hr : e.releases = some id) :
    ∃ g u health notified, s.guards.lookup id = some g ∧ s.release id g health notified = some u ∧
      e.health = some health ∧ (u.terminated = true → t.terminated = true) ∧
      (u.terminated = false → (∃ g', u.guards.lookup id = some g' ∧ g'.held = none) →
        t.pool = u.pool ∧ t.held = u.held ∧ t.terminated = u.terminated) := by
  cases e with
  | moveAssign target source health notified =>
    rcases step_moveAssign hs with ⟨rfl, -⟩ | ⟨hne, g, g', u, hg, -, hu, rfl⟩
    · simp [Event.releases] at hr
    · simp only [Event.releases, hne, if_false, Option.some.injEq] at hr
      subst hr
      refine ⟨g, u, health, notified, (usable_some hg).1, hu, rfl, ?_, ?_⟩
      · intro ht
        rw [if_pos ht]
        exact ht
      · intro ht _
        have hne : ¬ u.terminated = true := by simp [ht]
        rw [if_neg hne]
        exact ⟨rfl, rfl, rfl⟩
  | destroy id' health notified =>
    obtain ⟨g, u, hg, hu, rfl⟩ := step_destroy hs
    simp only [Event.releases, Option.some.injEq] at hr
    subst hr
    refine ⟨g, u, health, notified, (usable_some hg).1, hu, rfl, ?_, ?_⟩
    · intro ht
      rw [if_pos ht]
      exact ht
    · intro ht hempty
      obtain ⟨g', hl, hg'⟩ := hempty
      have hne : ¬ u.terminated = true := by simp [ht]
      rw [if_neg hne]
      exact ⟨rfl, holdings_erase _ hl hg', rfl⟩
  | init _ _ _ => cases hr
  | acquire _ _ => cases hr
  | wake _ => cases hr
  | recheck _ _ => cases hr
  | construct _ => cases hr
  | moveConstruct _ _ => cases hr
  | finishAssign _ _ => cases hr
  | close => cases hr

theorem release_iff {e : Event} {id : GuardId} (hs : step s e = some t) (hr : e.releases = some id) :
    ReleasesSafely s t ↔ ¬ Refused s e := by
  obtain ⟨g, u, health, notified, hid, hu, hh, hdead, hafter⟩ := step_releases hs hr
  have hlive := (step_perform hs).1
  have hiff : Refused s e ↔ health = .refused ∧ s.pool.isInitialized = true ∧ g.held ≠ none := by
    refine ⟨?_, ?_⟩
    · intro h
      obtain ⟨hrefused, hi, id', g', hr', hl, hg'⟩ := h
      rw [hr] at hr'
      cases hr'
      rw [hid] at hl
      cases hl
      rw [hh] at hrefused
      exact ⟨Option.some.inj hrefused, hi, hg'⟩
    · intro h
      obtain ⟨rfl, hi, hg⟩ := h
      exact ⟨hh, hi, id, g, hr, hid, hg⟩
  rw [hiff]
  refine ⟨?_, ?_⟩
  · intro hsafe h
    obtain ⟨rfl, hi, hg⟩ := h
    have ht := hdead (release_refused hu hi hg)
    rw [hsafe.returns] at ht
    cases ht
  · intro hn
    have hk := release_kept hid hu hn
    obtain ⟨hp, hheld, hterm⟩ := hafter (hk.returns.trans hlive) hk.emptied
    exact safe_of_kept hlive hk hp hheld hterm

/-- A pool of one connection, which a guard holds. -/
def heldRun : List Event := [.init (ascii "db") 1 fun _ => true, .acquire 1 1]

/-- The connection has died, and another one opens. -/
theorem reopened_release : ∃ s t, after heldRun = some s ∧ step s (.destroy 1 .reopened none) = some t ∧
    (ReleasesSafely s t ↔ ¬ Refused s (.destroy 1 .reopened none)) := by
  have hv : ((after heldRun).bind (step · (.destroy 1 .reopened none))).isSome = true := by decide
  obtain ⟨t, ht⟩ := Option.isSome_iff_exists.mp hv
  obtain ⟨s, hs, hst⟩ := Option.bind_eq_some_iff.mp ht
  exact ⟨s, t, hs, hst, release_iff hst rfl⟩

/-- It has died because the database is down: destroying the guard ends the program. -/
theorem dead_database_terminates : ∃ s t, after heldRun = some s ∧ s.pool.isInitialized = true ∧
    step s (.destroy 1 .refused none) = some t ∧ t.terminated = true ∧ ¬ ReleasesSafely s t := by
  have hv : (after heldRun).bind (fun s => (step s (.destroy 1 .refused none)).map fun t =>
      (s.pool.isInitialized, t.terminated)) = some (true, true) := by decide
  obtain ⟨s, hs, hv⟩ := Option.bind_eq_some_iff.mp hv
  obtain ⟨t, ht, hp⟩ := Option.map_eq_some_iff.mp hv
  simp only [Prod.mk.injEq] at hp
  refine ⟨s, t, hs, hp.1, ht, hp.2, ?_⟩
  intro h
  rw [h.returns] at hp
  exact absurd hp.2 (by decide)

end Clients

end BreWebServer.Database
