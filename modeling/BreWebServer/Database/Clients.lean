/-
  BreWebServer.Database.Clients — the pool under any number of clients.

  A state holds the pool, the live guards by name, and the clients in `Acquire`'s wait:
  blocked on the condition variable, or woken (notified or not) and not yet looking at the
  pool again. An event is one critical section of a client with what it does to its own
  guards, so a run is an interleaving of clients. A move assignment takes two: the target
  is released, then the source is read; meanwhile nobody else touches the two guards.

  The environment chooses whom `notify_one` wakes and what the database answers. `Release`
  and its callers are `noexcept`: an exception in `Return` ends the program (`terminated`).
-/

import BreWebServer.Database.Pool
import BreWebServer.Lib.Machine
import BreWebServer.Lib.Registry

namespace BreWebServer.Database

open BreWebServer.Cpp BreWebServer.Lib

abbrev ClientId := Nat

abbrev GuardId := Nat

structure Clients where
  pool : PostgrePool
  guards : AList fun _ : GuardId => ConnectionGuard
  /-- Target and source of the move assignments whose target has been released. -/
  assigning : List (GuardId × GuardId)
  blocked : Multiset ClientId
  awake : Multiset ClientId
  terminated : Bool

namespace Clients

open PostgrePool

/-- Before anything has happened. -/
def new : Clients := ⟨.new, ∅, [], 0, 0, false⟩

/-! ## The condition variable -/

def wakeUp (client : ClientId) (s : Clients) : Clients :=
  { s with blocked := s.blocked.erase client, awake := client ::ₘ s.awake }

/-- `notify_one` wakes a blocked client, if there is one. -/
def notifyOne (notified : Option ClientId) (s : Clients) : Option Clients :=
  match notified with
  | none => if s.blocked = 0 then some s else none
  | some client => if client ∈ s.blocked then some (s.wakeUp client) else none

def notifyAll (s : Clients) : Clients := { s with blocked := 0, awake := s.awake + s.blocked }

/-! ## Guards -/

def setGuard (id : GuardId) (g : ConnectionGuard) (s : Clients) : Clients := { s with guards := s.guards.insert id g }

/-- A guard that no assignment under way is about. -/
def usable (s : Clients) (id : GuardId) : Option ConnectionGuard :=
  if ∃ p ∈ s.assigning, id = p.1 ∨ id = p.2 then none else s.guards.lookup id

/-- `ConnectionGuard::Release`. -/
def release (id : GuardId) (g : ConnectionGuard) (health : Health) (notified : Option ClientId) (s : Clients) :
    Option Clients :=
  if g.held = none then some (s.setGuard id { g with attached := false })
  else
    match s.pool.giveBack g.connection health with
    | .dropped => some (s.setGuard id g.vacated)
    | .queued pool => notifyOne notified ({ s with pool }.setGuard id g.vacated)
    | .threw => some { s with terminated := true }

/-- The move constructor, and the second half of a move assignment. -/
def move (target source : GuardId) (g : ConnectionGuard) (s : Clients) : Clients :=
  (s.setGuard source g.vacated).setGuard target g

/-! ## Acquire -/

/-- What a look at the pool makes of a client that wants a guard called `id`. -/
def attempt (client : ClientId) (id : GuardId) (s : Clients) : Attempt → Clients
  | .threw _ => s
  | .waits => { s with blocked := client ::ₘ s.blocked }
  | .took connection pool => { s with pool }.setGuard id ⟨true, some connection, pool.generation⟩

/-! ## The machine -/

inductive Event where
  | init (connInfo : Bytes) (poolSize : Nat) (opens : Nat → Bool)
  | acquire (client : ClientId) (id : GuardId)
  /-- A blocked client wakes without being notified. -/
  | wake (client : ClientId)
  /-- A woken client looks at the pool again. -/
  | recheck (client : ClientId) (id : GuardId)
  | construct (id : GuardId)
  | moveConstruct (target source : GuardId)
  | moveAssign (target source : GuardId) (health : Health) (notified : Option ClientId)
  | finishAssign (target source : GuardId)
  | destroy (id : GuardId) (health : Health) (notified : Option ClientId)
  | close

def Event.isInit : Event → Bool
  | .init _ _ _ => true
  | _ => false

/-- The guard that an event releases. -/
def Event.releases : Event → Option GuardId
  | .moveAssign target source _ _ => if target = source then none else some target
  | .destroy id _ _ => some id
  | _ => none

/-- Every connection that the event tries to open opens. -/
def Event.OpensSucceed : Event → Prop
  | .init _ poolSize opens => ∀ i < poolSize, opens i = true
  | .moveAssign _ _ health _ => health ≠ .refused
  | .destroy _ health _ => health ≠ .refused
  | _ => True

def perform (s : Clients) : Event → Option Clients
  | .init connInfo poolSize opens => some { s with pool := (s.pool.init connInfo poolSize opens).2 }
  | .acquire client id =>
    if client ∉ s.blocked ∧ client ∉ s.awake ∧ id ∉ s.guards then some (s.attempt client id s.pool.acquire) else none
  | .wake client => if client ∈ s.blocked then some (s.wakeUp client) else none
  | .recheck client id =>
    if client ∈ s.awake ∧ id ∉ s.guards then
      some ({ s with awake := s.awake.erase client }.attempt client id s.pool.look)
    else none
  | .construct id => if id ∉ s.guards then some (s.setGuard id .empty) else none
  | .moveConstruct target source => if target ∉ s.guards then (s.usable source).map (s.move target source) else none
  | .moveAssign target source health notified =>
    (s.usable target).bind fun g => (s.usable source).bind fun _ =>
      if target = source then some s
      else
        (s.release target g health notified).map fun u =>
          if u.terminated then u else { u with assigning := (target, source) :: u.assigning }
  | .finishAssign target source =>
    if (target, source) ∈ s.assigning then
      (s.guards.lookup source).map fun g => { s.move target source g with assigning := s.assigning.erase (target, source) }
    else none
  | .destroy id health notified =>
    (s.usable id).bind fun g =>
      (s.release id g health notified).map fun u => if u.terminated then u else { u with guards := u.guards.erase id }
  | .close => some (if s.pool.closes then { s with pool := s.pool.close }.notifyAll else s)

def step (s : Clients) (e : Event) : Option Clients := if s.terminated then none else s.perform e

/-- The states after the events of a run. -/
def after (es : List Event) : Option Clients := Machine.run step new es

/-! ## What a step is -/

variable {s t : Clients}

/-- A release gives back nothing, is dropped, queues a connection and notifies, or ends
    the program. -/
theorem release_cases {id : GuardId} {g : ConnectionGuard} {health : Health} {notified : Option ClientId}
    (h : s.release id g health notified = some t) :
    (∃ g', g'.held = none ∧ t = s.setGuard id g' ∧ (g.held = none ∨ s.pool.initialized = false ∨ s.pool.closing = true)) ∨
    (∃ c c', g.held = some c ∧ s.pool.initialized = true ∧ s.pool.closing = false ∧ c'.slot = c.slot ∧
      (c' = c ∨ c' = s.pool.connect c.slot) ∧
      notifyOne notified ({ s with pool := { s.pool with pool := s.pool.pool ++ [c'] } }.setGuard id g.vacated) = some t) ∨
    (∃ c, g.held = some c ∧ (s.pool.initialized = true ∧ s.pool.closing = false) ∧ health = .refused ∧
      t = { s with terminated := true }) := by
  unfold release at h
  split at h
  · rename_i hn
    cases h
    exact .inl ⟨_, rfl, rfl, .inl hn⟩
  · rename_i hn
    obtain ⟨c, hc⟩ := Option.ne_none_iff_exists'.mp hn
    rw [ConnectionGuard.connection_of_held hc] at h
    rcases giveBack_cases c health s.pool with ⟨hd, he⟩ | ⟨hi, hcl, ⟨hr, he⟩ | ⟨c', hslot, hc', he⟩⟩
    · rw [he] at h
      cases h
      exact .inl ⟨_, rfl, rfl, .inr hd⟩
    · rw [he] at h
      cases h
      exact .inr (.inr ⟨c, hc, ⟨hi, hcl⟩, hr, rfl⟩)
    · rw [he] at h
      exact .inr (.inl ⟨c, c', hc, hi, hcl, hslot, hc', h⟩)

/-- Notifying moves one client from the blocked to the woken, or finds none blocked. -/
theorem notifyOne_cases {notified : Option ClientId} (h : s.notifyOne notified = some t) :
    (s.blocked = 0 ∧ t = s) ∨ ∃ client, client ∈ s.blocked ∧ t = s.wakeUp client := by
  unfold notifyOne at h
  split at h
  · split at h
    · cases h
      exact .inl ⟨‹_›, rfl⟩
    · cases h
  · rename_i client
    split at h
    · cases h
      exact .inr ⟨client, ‹_›, rfl⟩
    · cases h

/-- An attempt throws, blocks on an empty pool, or takes its first connection. -/
theorem attempt_cases (client : ClientId) (id : GuardId) (s : Clients) :
    (s.pool.closing = true ∧ s.attempt client id s.pool.look = s) ∨
    (s.pool.closing = false ∧ s.pool.pool = [] ∧
      s.attempt client id s.pool.look = { s with blocked := client ::ₘ s.blocked }) ∨
    ∃ c cs, s.pool.closing = false ∧ s.pool.pool = c :: cs ∧
      s.attempt client id s.pool.look =
        { s with pool := { s.pool with pool := cs } }.setGuard id ⟨true, some c, s.pool.generation⟩ := by
  rcases look_cases s.pool with ⟨hc, he⟩ | ⟨hc, hp, he⟩ | ⟨c, cs, hc, hp, he⟩
  · exact .inl ⟨hc, by rw [he]; rfl⟩
  · exact .inr (.inl ⟨hc, hp, by rw [he]; rfl⟩)
  · exact .inr (.inr ⟨c, cs, hc, hp, by rw [he]; rfl⟩)

theorem usable_some {id : GuardId} {g : ConnectionGuard} (h : s.usable id = some g) :
    s.guards.lookup id = some g ∧ ∀ p ∈ s.assigning, id ≠ p.1 ∧ id ≠ p.2 := by
  unfold usable at h
  split at h
  · cases h
  · rename_i hn
    refine ⟨h, fun p hp => ⟨fun he => hn ⟨p, hp, .inl he⟩, fun he => hn ⟨p, hp, .inr he⟩⟩⟩

theorem step_perform {e : Event} (h : step s e = some t) : s.terminated = false ∧ s.perform e = some t := by
  unfold step at h
  cases hs : s.terminated with
  | false => exact ⟨rfl, by simpa [hs] using h⟩
  | true => simp [hs] at h

theorem step_init {connInfo : Bytes} {n : Nat} {opens : Nat → Bool} (h : step s (.init connInfo n opens) = some t) :
    t = { s with pool := (s.pool.init connInfo n opens).2 } := by
  exact (Option.some.inj (step_perform h).2).symm

/-- A client calls `Acquire`: it throws at once, or the client looks at the pool. -/
theorem step_acquire {client : ClientId} {id : GuardId} (h : step s (.acquire client id) = some t) :
    id ∉ s.guards ∧ ((s.pool.initialized = false ∧ t = s) ∨
      (s.pool.initialized = true ∧ t = s.attempt client id s.pool.look)) := by
  have h := (step_perform h).2
  simp only [perform] at h
  split at h
  · rename_i hg
    refine ⟨hg.2.2, ?_⟩
    cases h
    unfold acquire
    cases hi : s.pool.initialized with
    | false => exact .inl ⟨rfl, rfl⟩
    | true => exact .inr ⟨rfl, rfl⟩
  · cases h

theorem step_wake {client : ClientId} (h : step s (.wake client) = some t) :
    client ∈ s.blocked ∧ t = s.wakeUp client := by
  have h := (step_perform h).2
  simp only [perform] at h
  split at h
  · cases h
    exact ⟨‹_›, rfl⟩
  · cases h

theorem step_recheck {client : ClientId} {id : GuardId} (h : step s (.recheck client id) = some t) :
    client ∈ s.awake ∧ id ∉ s.guards ∧ t = { s with awake := s.awake.erase client }.attempt client id s.pool.look := by
  have h := (step_perform h).2
  simp only [perform] at h
  split at h
  · rename_i hg
    cases h
    exact ⟨hg.1, hg.2, rfl⟩
  · cases h

theorem step_construct {id : GuardId} (h : step s (.construct id) = some t) : id ∉ s.guards ∧ t = s.setGuard id .empty := by
  have h := (step_perform h).2
  simp only [perform] at h
  split at h
  · cases h
    exact ⟨‹_›, rfl⟩
  · cases h

theorem step_moveConstruct {target source : GuardId} (h : step s (.moveConstruct target source) = some t) :
    target ∉ s.guards ∧ ∃ g, s.usable source = some g ∧ t = s.move target source g := by
  have h := (step_perform h).2
  simp only [perform] at h
  split at h
  · obtain ⟨g, hg, rfl⟩ := Option.map_eq_some_iff.mp h
    exact ⟨‹_›, g, hg, rfl⟩
  · cases h

/-- A guard assigned to itself stays as it is; any other target is released. -/
theorem step_moveAssign {target source : GuardId} {health : Health} {notified : Option ClientId}
    (h : step s (.moveAssign target source health notified) = some t) :
    (target = source ∧ t = s) ∨
    (target ≠ source ∧ ∃ g g' u, s.usable target = some g ∧ s.usable source = some g' ∧
      s.release target g health notified = some u ∧
      t = if u.terminated then u else { u with assigning := (target, source) :: u.assigning }) := by
  have h := (step_perform h).2
  simp only [perform] at h
  obtain ⟨g, hg, h⟩ := Option.bind_eq_some_iff.mp h
  obtain ⟨g', hg', h⟩ := Option.bind_eq_some_iff.mp h
  split at h
  · cases h
    exact .inl ⟨‹_›, rfl⟩
  · obtain ⟨u, hu, rfl⟩ := Option.map_eq_some_iff.mp h
    exact .inr ⟨‹_›, g, g', u, hg, hg', hu, rfl⟩

theorem step_finishAssign {target source : GuardId} (h : step s (.finishAssign target source) = some t) :
    (target, source) ∈ s.assigning ∧ ∃ g, s.guards.lookup source = some g ∧
      t = { s.move target source g with assigning := s.assigning.erase (target, source) } := by
  have h := (step_perform h).2
  simp only [perform] at h
  split at h
  · obtain ⟨g, hg, rfl⟩ := Option.map_eq_some_iff.mp h
    exact ⟨‹_›, g, hg, rfl⟩
  · cases h

theorem step_destroy {id : GuardId} {health : Health} {notified : Option ClientId}
    (h : step s (.destroy id health notified) = some t) :
    ∃ g u, s.usable id = some g ∧ s.release id g health notified = some u ∧
      t = if u.terminated then u else { u with guards := u.guards.erase id } := by
  have h := (step_perform h).2
  simp only [perform] at h
  obtain ⟨g, hg, h⟩ := Option.bind_eq_some_iff.mp h
  obtain ⟨u, hu, rfl⟩ := Option.map_eq_some_iff.mp h
  exact ⟨g, u, hg, hu, rfl⟩

theorem step_close (h : step s .close = some t) :
    (s.pool.closes = false ∧ t = s) ∨
    (s.pool.closes = true ∧ t = { s with pool := { s.pool with closing := true, initialized := false, pool := [] } }.notifyAll) := by
  have h := (Option.some.inj (step_perform h).2).symm
  cases hc : s.pool.closes with
  | false => exact .inl ⟨rfl, by simpa [hc] using h⟩
  | true => exact .inr ⟨rfl, by simpa [hc, close] using h⟩

end Clients

end BreWebServer.Database
