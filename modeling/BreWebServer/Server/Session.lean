/-
  BreWebServer.Server.Session — `Session` as a state machine over its completion handlers.

  A state holds the session's own fields, what the executor holds for it (`pending`: the
  operations under way; `ready`: completions whose handlers have not run) and a history of
  what it did. The operating system completes a pending operation, the executor runs any
  ready handler, one at a time, and `Stop` can be called from outside.

  Of the asynchronous library: an operation's handler runs once, after its completion;
  `expires_after` and `cancel` complete pending waits as aborted, closing the socket does
  so to pending reads and writes; what has completed already keeps its result; an
  operation started on a closed socket fails; a read gives at least one byte.

  An exception that leaves a handler leaves the executor: `crashed`, and nothing runs. A
  handler whose call of `UserService` ends the process is `terminated` as well.
-/

import BreWebServer.Http.Stream
import BreWebServer.Lib.Machine
import BreWebServer.Server.HandleRequest

namespace BreWebServer.Server

open BreWebServer.Lib BreWebServer.Cpp BreWebServer.Http BreWebServer.Service

inductive ErrorCode where
  | operationAborted
  | other
  deriving DecidableEq, Repr

inductive Op where
  | read
  | write
  | wait
  deriving DecidableEq, Repr

inductive Completion where
  | read (chunk : Bytes)
  | wrote
  | expired
  | failed (op : Op) (ec : ErrorCode)
  deriving DecidableEq, Repr

def Completion.op : Completion → Op
  | .read _ => .read
  | .wrote => .write
  | .expired => .wait
  | .failed op _ => op

/-- What the operating system can complete an operation with. -/
def Completion.possible : Completion → Bool
  | .read chunk => chunk != []
  | .failed .wait _ => false
  | _ => true

structure Session (δ : Type) where
  readBuffer : Buffer
  writeBuffer : Buffer
  request : HttpRequest
  keepAlive : Bool
  closed : Bool
  pending : Multiset Op
  ready : Multiset Completion
  crashed : Bool
  terminated : Bool
  /-- The operations started. -/
  started : List Op
  /-- What each successful read gave, once its handler has run. -/
  received : List Bytes
  /-- The requests handled, each with the files and the database it was handled in. -/
  handled : List (HttpRequest × Env δ)
  /-- The byte strings handed to `async_write`. -/
  written : List Bytes

namespace Session

variable {δ : Type}

/-! ## The session's functions -/

/-- Complete the pending operations of a kind as aborted. -/
def cancel (p : Op → Prop) [DecidablePred p] (s : Session δ) : Session δ :=
  { s with
    pending := s.pending.filter fun op => ¬ p op
    ready := s.ready + (s.pending.filter p).map fun op => .failed op .operationAborted }

def cancelTimer (s : Session δ) : Session δ := s.cancel (· = .wait)

def closeSocket (s : Session δ) : Session δ := s.cancel (· ≠ .wait)

def stop (s : Session δ) : Session δ :=
  if s.closed then s else ({ s with closed := true }.cancelTimer).closeSocket

/-- `expires_after` aborts the waits under way and starts none. -/
def resetTimer (s : Session δ) : Session δ := s.cancel (· = .wait)

def startTimer (s : Session δ) : Session δ :=
  let s := s.resetTimer
  { s with pending := .wait ::ₘ s.pending, started := s.started ++ [.wait] }

def handleTimeout (s : Session δ) : Session δ := if s.closed then s else s.stop

/-- Start an operation on the socket. -/
def initiate (op : Op) (s : Session δ) : Session δ :=
  { s with
    pending := if s.closed then s.pending else op ::ₘ s.pending
    ready := if s.closed then .failed op .other ::ₘ s.ready else s.ready
    started := s.started ++ [op] }

def doRead (s : Session δ) : Session δ := s.initiate .read

def doWrite (s : Session δ) : Session δ := { s with written := s.written ++ [s.writeBuffer] }.initiate .write

/-- What the constructor leaves. -/
def new : Session δ := ⟨[], [], .fresh, false, false, 0, 0, false, false, [], [], [], []⟩

def start (s : Session δ) : Session δ := s.startTimer.doRead

variable (cfg : Config δ) (sessionId : Nat)

/-- `HandleRequest`; see `answer` for the response it builds. -/
def handleRequest (env : Env δ) (s : Session δ) : Session δ :=
  let s := { s with keepAlive := wantsKeepAlive s.request, handled := s.handled ++ [(s.request, env)] }
  match answer cfg sessionId env s.request with
  | .error e => { s with crashed := true, terminated := e = .terminated }
  | .ok (response, _) => { s with writeBuffer := (response.build cfg.order s.writeBuffer).2 }.doWrite

/-! ## The completion handlers -/

def receive (chunk : Bytes) (s : Session δ) : Session δ :=
  { s with readBuffer := s.readBuffer ++ chunk, received := s.received ++ [chunk] }.resetTimer

def onRead (env : Env δ) (result : Except ErrorCode Bytes) (s : Session δ) : Session δ :=
  match result with
  | .error _ => s.stop
  | .ok chunk =>
    let s := s.receive chunk
    match parse s.request s.readBuffer with
    | (.returned true, request, readBuffer) => { s with request, readBuffer }.handleRequest cfg sessionId env
    | (.returned false, request, readBuffer) => { s with request, readBuffer }.doRead
    | (.threw _, request, readBuffer) => { s with request, readBuffer, crashed := true }

def onWrite (ec : Option ErrorCode) (s : Session δ) : Session δ :=
  match ec with
  | some _ => s.stop
  | none =>
    let s := { s with writeBuffer := [] }
    if s.keepAlive ∧ ¬ s.closed then { s with request := s.request.reset }.doRead else s.stop

def onWait (ec : Option ErrorCode) (s : Session δ) : Session δ :=
  match ec with
  | some _ => s
  | none => s.handleTimeout

def handle (env : Env δ) (c : Completion) (s : Session δ) : Session δ :=
  match c with
  | .read chunk => s.onRead cfg sessionId env (.ok chunk)
  | .failed .read ec => s.onRead cfg sessionId env (.error ec)
  | .wrote => s.onWrite none
  | .failed .write ec => s.onWrite (some ec)
  | .expired => s.onWait none
  | .failed .wait ec => s.onWait (some ec)

/-! ## The machine -/

inductive Event (δ : Type) where
  /-- The operating system completes a pending operation. -/
  | complete (c : Completion)
  /-- The executor runs a ready handler; a request it handles sees `env`. -/
  | run (c : Completion) (env : Env δ)
  /-- `Stop` is called. -/
  | stop

def complete (c : Completion) (s : Session δ) : Session δ :=
  { s with pending := s.pending.erase c.op, ready := c ::ₘ s.ready }

def dequeue (c : Completion) (s : Session δ) : Session δ := { s with ready := s.ready.erase c }

def step (s : Session δ) : Event δ → Option (Session δ)
  | .complete c => if s.crashed = false ∧ c.op ∈ s.pending ∧ c.possible then some (s.complete c) else none
  | .run c env =>
    if s.crashed = false ∧ c ∈ s.ready then some ((s.dequeue c).handle cfg sessionId env c) else none
  | .stop => if s.crashed = false then some s.stop else none

/-- The states of a started session, after the events of a run. -/
def after (es : List (Event δ)) : Option (Session δ) := Machine.run (step cfg sessionId) new.start es

/-- The operations started whose handlers have not run. -/
def outstanding (s : Session δ) : Multiset Op := s.pending + s.ready.map Completion.op

/-! ## What the functions change -/

section Fields

variable (p : Op → Prop) [DecidablePred p] (op : Op) (s : Session δ)

@[simp] theorem outstanding_cancel : (s.cancel p).outstanding = s.outstanding := by
  simp only [outstanding, cancel, Multiset.map_add, Multiset.map_map]
  have hid : (s.pending.filter p).map (Completion.op ∘ fun op => .failed op .operationAborted) = s.pending.filter p :=
    Multiset.map_id _
  rw [hid]
  have hsplit := Multiset.filter_add_not p s.pending
  calc s.pending.filter (fun op => ¬ p op) + (s.ready.map Completion.op + s.pending.filter p)
      = (s.pending.filter p + s.pending.filter fun op => ¬ p op) + s.ready.map Completion.op := by abel
    _ = s.pending + s.ready.map Completion.op := by rw [hsplit]

@[simp] theorem outstanding_initiate : (s.initiate op).outstanding = op ::ₘ s.outstanding := by
  simp only [outstanding, initiate]
  split
  · rw [Multiset.map_cons, Multiset.add_cons]
    rfl
  · rw [Multiset.cons_add]

@[simp] theorem outstanding_stop : s.stop.outstanding = s.outstanding := by
  unfold stop
  split
  · rfl
  · simp only [closeSocket, cancelTimer, outstanding_cancel]
    rfl

theorem outstanding_complete {c : Completion} (h : c.op ∈ s.pending) : (s.complete c).outstanding = s.outstanding := by
  simp only [outstanding, complete, Multiset.map_cons, Multiset.add_cons, ← Multiset.cons_add]
  rw [Multiset.cons_erase h]

theorem outstanding_dequeue {c : Completion} (h : c ∈ s.ready) :
    s.outstanding = c.op ::ₘ (s.dequeue c).outstanding := by
  simp only [outstanding, dequeue]
  rw [← Multiset.add_cons, ← Multiset.map_cons, Multiset.cons_erase h]

theorem mem_outstanding {c : Completion} (h : c ∈ s.ready) : c.op ∈ s.outstanding := by
  rw [outstanding_dequeue s h]
  exact Multiset.mem_cons_self _ _

theorem pending_stop (h : s.closed = false) : s.stop.pending = 0 := by
  simp only [stop, h, closeSocket, cancelTimer, cancel, Bool.false_eq_true, if_false, Multiset.filter_filter]
  rw [Multiset.filter_eq_nil]
  intro op _ hn
  exact hn.1 hn.2

theorem closed_stop : s.stop.closed = true := by
  unfold stop
  split
  · assumption
  · rfl

/-- Stopping queues aborted completions only. -/
theorem ready_stop {c : Completion} (h : c ∈ s.stop.ready) : c ∈ s.ready ∨ ∃ op ec, c = .failed op ec := by
  unfold stop at h
  split at h
  · exact .inl h
  · simp only [closeSocket, cancelTimer, cancel, Multiset.mem_add, Multiset.mem_map] at h
    rcases h with (h | ⟨op, -, h⟩) | ⟨op, -, h⟩
    · exact .inl h
    · exact .inr ⟨op, _, h.symm⟩
    · exact .inr ⟨op, _, h.symm⟩

theorem ready_of_stop {c : Completion} (h : c ∈ s.ready) : c ∈ s.stop.ready := by
  unfold stop
  split
  · exact h
  · exact Multiset.mem_add.mpr (.inl (Multiset.mem_add.mpr (.inl h)))

end Fields

/-! ## What the handlers do -/

/-- The read handler's three ways on, by what `Parse` returns. -/
theorem onRead_cases (env : Env δ) (chunk : Bytes) (s : Session δ) :
    (∃ request readBuffer, parse s.request (s.readBuffer ++ chunk) = (.returned true, request, readBuffer) ∧
      s.onRead cfg sessionId env (.ok chunk) =
        { s.receive chunk with request, readBuffer }.handleRequest cfg sessionId env) ∨
    (∃ request readBuffer, parse s.request (s.readBuffer ++ chunk) = (.returned false, request, readBuffer) ∧
      s.onRead cfg sessionId env (.ok chunk) = { s.receive chunk with request, readBuffer }.doRead) ∨
    (∃ ex request readBuffer, parse s.request (s.readBuffer ++ chunk) = (.threw ex, request, readBuffer) ∧
      s.onRead cfg sessionId env (.ok chunk) = { s.receive chunk with request, readBuffer, crashed := true }) := by
  obtain ⟨⟨o, request, readBuffer⟩, hp⟩ : ∃ out, parse s.request (s.readBuffer ++ chunk) = out := ⟨_, rfl⟩
  rw [hp]
  have hp' : parse (s.receive chunk).request (s.receive chunk).readBuffer = (o, request, readBuffer) := hp
  cases o with
  | returned b =>
    cases b with
    | true => exact .inl ⟨request, readBuffer, rfl, by simp only [onRead, hp']⟩
    | false => exact .inr (.inl ⟨request, readBuffer, rfl, by simp only [onRead, hp']⟩)
  | threw ex => exact .inr (.inr ⟨ex, request, readBuffer, rfl, by simp only [onRead, hp']⟩)

/-- The bytes that answer a handled request, unless its handler throws. -/
def reply (h : HttpRequest × Env δ) : Option Bytes := (respond cfg sessionId h.2 h.1).toOption

theorem handleRequest_cases (env : Env δ) (s : Session δ) :
    (reply cfg sessionId (s.request, env) = none ∧ ∃ terminated, s.handleRequest cfg sessionId env =
      { s with
        keepAlive := wantsKeepAlive s.request
        handled := s.handled ++ [(s.request, env)]
        crashed := true
        terminated }) ∨
    (∃ b, reply cfg sessionId (s.request, env) = some b ∧ s.handleRequest cfg sessionId env =
      { s with
        keepAlive := wantsKeepAlive s.request
        handled := s.handled ++ [(s.request, env)]
        writeBuffer := s.writeBuffer ++ b }.doWrite) := by
  cases ha : answer cfg sessionId env s.request with
  | error e =>
    refine .inl ⟨?_, decide (e = .terminated), ?_⟩
    · simp [reply, respond, ha, Except.map, Except.toOption]
    · simp only [handleRequest, ha]
  | ok r =>
    refine .inr ⟨r.1.encode cfg.order, ?_, ?_⟩
    · simp [reply, respond, ha, Except.map, Except.toOption]
    · simp only [handleRequest, ha, HttpResponse.build_eq_encode]

/-! ## What a step is -/

variable {cfg sessionId} {s t : Session δ}

theorem step_complete {c : Completion} (h : step cfg sessionId s (.complete c) = some t) :
    (c.op ∈ s.pending ∧ c.possible) ∧ t = s.complete c := by
  simp only [step] at h
  split at h
  · rename_i hg
    cases h
    exact ⟨hg.2, rfl⟩
  · cases h

theorem step_run {c : Completion} {env : Env δ} (h : step cfg sessionId s (.run c env) = some t) :
    c ∈ s.ready ∧ t = (s.dequeue c).handle cfg sessionId env c := by
  simp only [step] at h
  split at h
  · rename_i hg
    cases h
    exact ⟨hg.2, rfl⟩
  · cases h

theorem step_stop (h : step cfg sessionId s .stop = some t) : t = s.stop := by
  simp only [step] at h
  split at h
  · cases h
    rfl
  · cases h

/-- A handler that ends the process leaves the session as an exception does. -/
theorem terminated_handleRequest (env : Env δ) (s : Session δ) :
    (s.handleRequest cfg sessionId env).terminated = s.terminated ∨ (s.handleRequest cfg sessionId env).crashed = true := by
  rcases handleRequest_cases cfg sessionId env s with ⟨-, _, he⟩ | ⟨b, -, he⟩
  · exact .inr (by rw [he])
  · left
    rw [he]
    rfl

theorem terminated_stop (s : Session δ) : s.stop.terminated = s.terminated := by
  unfold stop
  split <;> rfl

theorem terminated_step {e : Event δ} (h : step cfg sessionId s e = some t) :
    t.terminated = s.terminated ∨ t.crashed = true := by
  cases e with
  | complete c =>
    obtain ⟨-, rfl⟩ := step_complete h
    exact .inl rfl
  | stop =>
    obtain rfl := step_stop h
    exact .inl (terminated_stop s)
  | run c env =>
    obtain ⟨-, rfl⟩ := step_run h
    cases c with
    | read chunk =>
      rw [handle]
      rcases onRead_cases cfg sessionId env chunk (s.dequeue (.read chunk)) with
        ⟨q, b, -, he⟩ | ⟨q, b, -, he⟩ | ⟨ex, q, b, -, he⟩
      · rw [he]
        exact terminated_handleRequest env _
      · rw [he]
        exact .inl rfl
      · rw [he]
        exact .inr rfl
    | wrote =>
      left
      simp only [handle, onWrite]
      split
      · rfl
      · exact terminated_stop _
    | expired =>
      left
      simp only [handle, onWait, handleTimeout]
      split
      · rfl
      · exact terminated_stop _
    | failed op ec =>
      left
      cases op with
      | read => exact terminated_stop _
      | write => exact terminated_stop _
      | wait => rfl

theorem step_live {e : Event δ} (h : step cfg sessionId s e = some t) : s.crashed = false := by
  cases hc : s.crashed with
  | false => rfl
  | true => cases e <;> simp [step, hc] at h

/-- A session that has not crashed has not ended the process. -/
theorem terminated_after {es : List (Event δ)} (h : after cfg sessionId es = some s) (hlive : s.crashed = false) :
    s.terminated = false := by
  have hinv : s.terminated = true → s.crashed = true := by
    refine Machine.run_invariant (I := fun s : Session δ => s.terminated = true → s.crashed = true) ?_ es
      (fun hnew => by cases hnew) h
    intro u e v hu hs hv
    rcases terminated_step hs with he | hc
    · rw [he] at hv
      rw [step_live hs] at hu
      cases hu hv
    · exact hc
  cases ht : s.terminated with
  | false => rfl
  | true =>
    rw [hinv ht] at hlive
    cases hlive

end Session

end BreWebServer.Server
