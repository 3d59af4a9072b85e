/-
  BreWebServer.Database.Pool — `PostgrePool` and `ConnectionGuard`.

  Each function is what the source does while it holds the mutex. What the database
  answers (whether a connection opens, whether one is still open) is an argument. Ghosts:
  a connection knows the slot it was opened for, the pool counts the calls of `Init`, and
  a guard knows under which of them it was acquired.
-/

import BreWebServer.Cpp.Text

namespace BreWebServer.Database

open BreWebServer.Cpp

structure Connection where
  connInfo : Bytes
  slot : Nat
  deriving DecidableEq, Repr

/-- What the pool's functions throw. -/
inductive PoolError where
  | invalidSize
  | openFailed
  | notInitialized
  | closing
  deriving DecidableEq, Repr

structure PostgrePool where
  pool : List Connection
  connInfo : Bytes
  initialized : Bool
  closing : Bool
  poolSize : Nat
  /-- How many calls of `Init` have begun to open connections. -/
  generation : Nat
  deriving DecidableEq, Repr

namespace PostgrePool

/-- What the constructor leaves. -/
def new : PostgrePool := ⟨[], [], false, false, 0, 0⟩

def isInitialized (p : PostgrePool) : Bool := p.initialized && !p.closing

def availableCount (p : PostgrePool) : Nat := p.pool.length

/-! ## Init and Close -/

/-- A connection opened now, for a slot. -/
def connect (p : PostgrePool) (slot : Nat) : Connection := ⟨p.connInfo, slot⟩

/-- `Init`'s loop over the slots still to be opened. -/
def openSlots (opens : Nat → Bool) : List Nat → PostgrePool → Except PoolError Unit × PostgrePool
  | [], p => (.ok (), { p with initialized := true })
  | slot :: slots, p =>
    if opens slot then openSlots opens slots { p with pool := p.pool ++ [p.connect slot] }
    else (.error .openFailed, p)

def init (connInfo : Bytes) (poolSize : Nat) (opens : Nat → Bool) (p : PostgrePool) : Except PoolError Unit × PostgrePool :=
  if poolSize = 0 then (.error .invalidSize, p)
  else
    openSlots opens (List.range poolSize)
      { p with pool := [], connInfo, poolSize, closing := false, generation := p.generation + 1 }

/-- `Close` does nothing to a pool that was never initialised; else it wakes every client. -/
def closes (p : PostgrePool) : Bool := p.initialized || p.closing

def close (p : PostgrePool) : PostgrePool :=
  if p.closes then { p with closing := true, initialized := false, pool := [] } else p

/-! ## Acquire and Return -/

/-- How far `Acquire` gets in one look at the pool. -/
inductive Attempt where
  | threw (e : PoolError)
  | waits
  | took (connection : Connection) (p : PostgrePool)
  deriving DecidableEq

/-- The wait's predicate and what follows it. -/
def look (p : PostgrePool) : Attempt :=
  if p.closing then .threw .closing
  else
    match p.pool with
    | [] => .waits
    | connection :: pool => .took connection { p with pool }

def acquire (p : PostgrePool) : Attempt := if p.initialized then p.look else .threw .notInitialized

/-- What `is_open` says of a connection, and if it is dead, whether another one opens. -/
inductive Health where
  | alive
  | reopened
  | refused
  deriving DecidableEq, Repr

inductive Returned where
  | dropped
  | queued (p : PostgrePool)
  | threw
  deriving DecidableEq

/-- `Return`. The connection opened in a dead one's place takes its slot. -/
def giveBack (connection : Option Connection) (health : Health) (p : PostgrePool) : Returned :=
  match connection with
  | none => .dropped
  | some connection =>
    if p.initialized = false ∨ p.closing = true then .dropped
    else
      match health with
      | .alive => .queued { p with pool := p.pool ++ [connection] }
      | .reopened => .queued { p with pool := p.pool ++ [p.connect connection.slot] }
      | .refused => .threw

/-! ## What they do -/

theorem openSlots_opened {opens : Nat → Bool} (slots : List Nat) : ∀ {p : PostgrePool}, (∀ i ∈ slots, opens i = true) →
    openSlots opens slots p = (.ok (), { p with pool := p.pool ++ slots.map p.connect, initialized := true }) := by
  induction slots with
  | nil => intro p _; simp [openSlots]
  | cons slot slots ih =>
    intro p h
    simp only [List.forall_mem_cons] at h
    simp only [openSlots, h.1, if_true, ih h.2]
    simp [connect]

/-- `Init` once every connection has opened. -/
theorem init_opened {connInfo : Bytes} {n : Nat} {opens : Nat → Bool} (hn : n ≠ 0) (h : ∀ i < n, opens i = true)
    (p : PostgrePool) :
    (init connInfo n opens p).2 = ⟨(List.range n).map fun i => ⟨connInfo, i⟩, connInfo, true, false, n, p.generation + 1⟩ := by
  rw [init, if_neg hn, openSlots_opened _ fun i hi => h i (List.mem_range.mp hi)]
  rfl

/-- What a look at the pool can come to. -/
theorem look_cases (p : PostgrePool) :
    (p.closing = true ∧ p.look = .threw .closing) ∨
    (p.closing = false ∧ p.pool = [] ∧ p.look = .waits) ∨
    ∃ c cs, p.closing = false ∧ p.pool = c :: cs ∧ p.look = .took c { p with pool := cs } := by
  unfold look
  cases hc : p.closing with
  | true => exact .inl ⟨rfl, rfl⟩
  | false =>
    cases hp : p.pool with
    | nil => exact .inr (.inl ⟨rfl, rfl, rfl⟩)
    | cons c cs => exact .inr (.inr ⟨c, cs, rfl, rfl, rfl⟩)

/-- What giving a connection back can come to. -/
theorem giveBack_cases (c : Connection) (health : Health) (p : PostgrePool) :
    ((p.initialized = false ∨ p.closing = true) ∧ p.giveBack (some c) health = .dropped) ∨
    (p.initialized = true ∧ p.closing = false ∧
      ((health = .refused ∧ p.giveBack (some c) health = .threw) ∨
      ∃ c', c'.slot = c.slot ∧ (c' = c ∨ c' = p.connect c.slot) ∧
        p.giveBack (some c) health = .queued { p with pool := p.pool ++ [c'] })) := by
  by_cases hd : p.initialized = false ∨ p.closing = true
  · exact .inl ⟨hd, by simp only [giveBack, hd, if_true]⟩
  · right
    have hi : p.initialized = true := by cases h : p.initialized <;> simp_all
    have hc : p.closing = false := by cases h : p.closing <;> simp_all
    refine ⟨hi, hc, ?_⟩
    simp only [giveBack, hd, if_false]
    cases health with
    | alive => exact .inr ⟨c, rfl, .inl rfl, rfl⟩
    | reopened => exact .inr ⟨p.connect c.slot, rfl, .inr rfl, rfl⟩
    | refused => exact .inl ⟨rfl, rfl⟩

end PostgrePool

/-! ## Guards -/

/-- `ConnectionGuard`: whether `_pool` is set, the connection, and the `Init` under which
    it was acquired. -/
structure ConnectionGuard where
  attached : Bool
  connection : Option Connection
  acquired : Nat
  deriving DecidableEq, Repr

namespace ConnectionGuard

def empty : ConnectionGuard := ⟨false, none, 0⟩

/-- What is left of a guard whose connection is moved out or given back. -/
def vacated (g : ConnectionGuard) : ConnectionGuard := { g with attached := false, connection := none }

/-- The connection of a guard for which `operator bool` holds. -/
def held (g : ConnectionGuard) : Option Connection := if g.attached then g.connection else none

/-- The connection of a guard that holds one since the `k`th `Init`. -/
def heldSince (k : Nat) (g : ConnectionGuard) : Option Connection := if g.acquired = k then g.held else none

@[simp] theorem held_empty : empty.held = none := rfl

theorem connection_of_held {g : ConnectionGuard} {c : Connection} (h : g.held = some c) : g.connection = some c := by
  unfold held at h
  split at h
  · exact h
  · cases h

theorem heldSince_none {g : ConnectionGuard} (h : g.held = none) (k : Nat) : g.heldSince k = none := by
  simp [heldSince, h]

end ConnectionGuard

end BreWebServer.Database
