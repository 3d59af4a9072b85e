/-
  BreWebServer.Server.WebServer — `WebServer` as a state machine: the acceptor, the thread
  that calls `Start`, the calls of `Stop` under way, and the sessions it starts.

  One thread calls `Start`, as `main` does; in `run` it takes the handlers of completed
  operations one at a time, those of the accepts and those of the sessions: an accepted
  socket keeps the acceptor's executor, and a session's timer that of its socket. Only the
  session's construction and its `Start` run in the pool's io_context that the connection is
  posted to. `Stop` comes from another thread, so what it does after its exchange (`print`,
  `close`, `halt`, `reset`) falls between any two steps of that one.

  Of the asynchronous library: closing the acceptor aborts the accepts under way, and one
  started on a closed acceptor fails; `run` returns when its io_context is stopped or has
  no operation left; an exception that leaves a handler leaves `run`, and `Start` with it,
  and what the handler held is gone. `remote_endpoint` throws if the peer has disconnected;
  nothing else in an accept's handler throws. The two increments of a successful accept are
  one step.

  The process dies where a session's handler ends it, and where `PrintStats` asks a thread
  pool for its size that another `Stop` has reset.
-/

import BreWebServer.Server.Session

namespace BreWebServer.Server

open BreWebServer.Lib BreWebServer.Cpp BreWebServer.Http BreWebServer.Service

inductive AcceptResult where
  | accepted
  | failed (ec : ErrorCode)
  deriving DecidableEq, Repr

/-- Where an accepted connection is. -/
inductive Accepted (δ : Type) where
  /-- With the handler of its accept. -/
  | handed
  /-- Posted to an io_context of the pool. -/
  | posted
  | started (sessionId : Nat) (session : Session δ)
  /-- Gone with an exception that left the handler. -/
  | dropped

/-- No operation of its session's is outstanding. -/
def Accepted.idle {δ : Type} : Accepted δ → Bool
  | .started _ session => session.outstanding = 0
  | _ => true

/-- Where the thread is that calls `Start`. -/
inductive Phase where
  | outside
  /-- About to call `StartAccept`. -/
  | startAccept
  /-- In `run`, and in no handler. -/
  | waiting
  /-- In the handler: about to print where a connection is from. -/
  | logging (i : Nat)
  /-- About to post it. -/
  | dispatching (i : Nat)
  /-- About to look at `_running`. -/
  | checking
  deriving DecidableEq, Repr

structure WebServer (δ : Type) where
  running : Bool
  totalConnections : UInt64
  activeConnections : UInt64
  acceptorOpen : Bool
  /-- The acceptor's io_context is stopped. -/
  stopped : Bool
  /-- The thread pool is not yet reset. -/
  threadPool : Bool
  /-- Calls of `Stop` that have still to print the statistics. -/
  printing : Nat
  /-- Calls of `Stop` that have still to close the acceptor. -/
  closing : Nat
  /-- Calls of `Stop` that have still to stop the io_context. -/
  halting : Nat
  /-- Calls of `Stop` that have still to reset the thread pool. -/
  resetting : Nat
  phase : Phase
  /-- The accepts under way. -/
  pending : Nat
  /-- Completed accepts whose handlers have not run. -/
  ready : Multiset AcceptResult
  sessionCounter : UInt64
  /-- Every connection accepted so far, from the start of its handler on. -/
  connections : List (Accepted δ)
  /-- The process has ended. -/
  died : Bool

namespace WebServer

variable {δ : Type}

/-- What the constructor leaves. -/
def new : WebServer δ := ⟨false, 0, 0, true, false, true, 0, 0, 0, 0, .outside, 0, 0, 0, [], false⟩

/-- `Start` up to `StartAccept`. -/
def start (s : WebServer δ) : WebServer δ := if s.running then s else { s with running := true, phase := .startAccept }

def startAccept (s : WebServer δ) : WebServer δ :=
  { s with
    phase := .waiting
    pending := if s.acceptorOpen then s.pending + 1 else s.pending
    ready := if s.acceptorOpen then s.ready else .failed .other ::ₘ s.ready }

/-- The completion handler up to where it prints the peer's address. -/
def onAccept (r : AcceptResult) (s : WebServer δ) : WebServer δ :=
  match r with
  | .accepted =>
    { s with
      totalConnections := s.totalConnections + 1
      activeConnections := s.activeConnections + 1
      connections := s.connections ++ [.handed]
      phase := .logging s.connections.length }
  | .failed _ => { s with phase := .checking }

/-- `Stop` up to `PrintStats`. -/
def stop (s : WebServer δ) : WebServer δ :=
  if s.running then { s with running := false, printing := s.printing + 1 } else s

/-- `PrintStats`, which asks the thread pool for its size. -/
def print (s : WebServer δ) : WebServer δ :=
  if s.threadPool then { s with printing := s.printing - 1, closing := s.closing + 1 } else { s with died := true }

def close (s : WebServer δ) : WebServer δ :=
  { s with
    acceptorOpen := false
    pending := 0
    ready := s.ready + Multiset.replicate s.pending (.failed .operationAborted)
    closing := s.closing - 1
    halting := s.halting + 1 }

def halt (s : WebServer δ) : WebServer δ :=
  { s with stopped := true, halting := s.halting - 1, resetting := s.resetting + 1 }

def reset (s : WebServer δ) : WebServer δ := { s with threadPool := false, resetting := s.resetting - 1 }

/-- `run` can take a handler. -/
def runs (s : WebServer δ) : Prop := s.phase = .waiting ∧ s.stopped = false

instance (s : WebServer δ) : Decidable s.runs := inferInstanceAs (Decidable (_ ∧ _))

/-- A session's handlers run in `run`, its operations complete at any time, and nothing of the
    server calls its `Stop`. -/
def admits (s : WebServer δ) : Session.Event δ → Bool
  | .complete _ => true
  | .run _ _ => s.runs
  | .stop => false

/-- A session has taken a step. An exception of its handler leaves `run`. -/
def moved (i sessionId : Nat) (session : Session δ) (s : WebServer δ) : WebServer δ :=
  { s with
    connections := s.connections.set i (.started sessionId session)
    phase := if session.crashed then .outside else s.phase
    died := session.terminated }

/-- The numbers `PrintStats` prints. -/
def printStats (s : WebServer δ) : UInt64 × UInt64 := (s.totalConnections, s.activeConnections)

/-! ## The machine -/

inductive Event (δ : Type) where
  /-- `Start` is called. -/
  | start
  | startAccept
  /-- The operating system completes an accept. -/
  | complete (r : AcceptResult)
  /-- The handler of a completed accept begins to run. -/
  | run (r : AcceptResult)
  /-- It asks for the peer's address; the peer may be gone. -/
  | log (gone : Bool)
  | post
  | check
  /-- `run` returns. -/
  | leave
  /-- `Stop` is called. -/
  | stop
  | print
  | close
  | halt
  | reset
  /-- A session is created and started in its io_context. -/
  | create (i : Nat)
  /-- A session takes a step. -/
  | session (i : Nat) (e : Session.Event δ)

variable (cfg : Config δ)

def act (s : WebServer δ) : Event δ → Option (WebServer δ)
  | .start => if s.phase = .outside then some s.start else none
  | .startAccept => if s.phase = .startAccept then some s.startAccept else none
  | .complete r => if 0 < s.pending then some { s with pending := s.pending - 1, ready := r ::ₘ s.ready } else none
  | .run r =>
    if s.runs ∧ r ∈ s.ready then
      some ({ s with ready := s.ready.erase r }.onAccept r)
    else none
  | .log gone =>
    match s.phase with
    | .logging i =>
      some (if gone then { s with phase := .outside, connections := s.connections.set i .dropped }
        else { s with phase := .dispatching i })
    | _ => none
  | .post =>
    match s.phase with
    | .dispatching i => some { s with phase := .checking, connections := s.connections.set i .posted }
    | _ => none
  | .check =>
    if s.phase = .checking then some { s with phase := if s.running then .startAccept else .waiting } else none
  | .leave =>
    if s.phase = .waiting ∧ (s.stopped = true ∨ s.pending = 0 ∧ s.ready = 0 ∧ s.connections.all Accepted.idle) then
      some { s with phase := .outside, stopped := true }
    else none
  | .stop => some s.stop
  | .print => if 0 < s.printing then some s.print else none
  | .close => if 0 < s.closing then some s.close else none
  | .halt => if 0 < s.halting then some s.halt else none
  | .reset => if 0 < s.resetting then some s.reset else none
  | .create i =>
    match s.connections[i]? with
    | some .posted =>
      some { s with
        sessionCounter := s.sessionCounter + 1
        connections := s.connections.set i (.started (s.sessionCounter + 1).toNat Session.new.start) }
    | _ => none
  | .session i e =>
    match s.connections[i]? with
    | some (.started sessionId session) =>
      if s.admits e then (session.step cfg sessionId e).map fun session => s.moved i sessionId session else none
    | _ => none

def step (s : WebServer δ) (e : Event δ) : Option (WebServer δ) := if s.died then none else s.act cfg e

/-- The state after the events of a run, from the constructor on. -/
def after (es : List (Event δ)) : Option (WebServer δ) := Machine.run (step cfg) new es

/-! ## What a step is -/

/-- Each event with the states it can happen in, and the state after it. -/
inductive Steps (s : WebServer δ) : Event δ → WebServer δ → Prop
  | start (hp : s.phase = .outside) : Steps s .start s.start
  | startAccept (hp : s.phase = .startAccept) : Steps s .startAccept s.startAccept
  | complete (r : AcceptResult) (hp : 0 < s.pending) :
      Steps s (.complete r) { s with pending := s.pending - 1, ready := r ::ₘ s.ready }
  | accepted (hrun : s.runs) (hr : .accepted ∈ s.ready) :
      Steps s (.run .accepted) ({ s with ready := s.ready.erase .accepted }.onAccept .accepted)
  | failed (ec : ErrorCode) (hrun : s.runs) (hr : .failed ec ∈ s.ready) :
      Steps s (.run (.failed ec)) { s with ready := s.ready.erase (.failed ec), phase := .checking }
  | gone (i : Nat) (hp : s.phase = .logging i) :
      Steps s (.log true) { s with phase := .outside, connections := s.connections.set i .dropped }
  | logged (i : Nat) (hp : s.phase = .logging i) : Steps s (.log false) { s with phase := .dispatching i }
  | post (i : Nat) (hp : s.phase = .dispatching i) :
      Steps s .post { s with phase := .checking, connections := s.connections.set i .posted }
  | goesOn (hp : s.phase = .checking) (hr : s.running = true) : Steps s .check { s with phase := .startAccept }
  | ends (hp : s.phase = .checking) (hr : s.running = false) : Steps s .check { s with phase := .waiting }
  | leave (hp : s.phase = .waiting)
      (hs : s.stopped = true ∨ s.pending = 0 ∧ s.ready = 0 ∧ s.connections.all Accepted.idle = true) :
      Steps s .leave { s with phase := .outside, stopped := true }
  | stop : Steps s .stop s.stop
  | print (hp : 0 < s.printing) : Steps s .print s.print
  | close (hc : 0 < s.closing) : Steps s .close s.close
  | halt (hh : 0 < s.halting) : Steps s .halt s.halt
  | reset (hr : 0 < s.resetting) : Steps s .reset s.reset
  | create (i : Nat) (hi : s.connections[i]? = some .posted) :
      Steps s (.create i) { s with
        sessionCounter := s.sessionCounter + 1
        connections := s.connections.set i (.started (s.sessionCounter + 1).toNat Session.new.start) }
  | session (i : Nat) (e : Session.Event δ) (sessionId : Nat) (session session' : Session δ)
      (hi : s.connections[i]? = some (.started sessionId session)) (ha : s.admits e = true)
      (he : session.step cfg sessionId e = some session') : Steps s (.session i e) (s.moved i sessionId session')

variable {cfg}

/-- `PrintStats` changes what is left of `Stop`, or ends the process. -/
theorem print_eq (s : WebServer δ) : ∃ printing closing died, s.print = { s with printing, closing, died } := by
  unfold print
  split
  · exact ⟨_, _, s.died, rfl⟩
  · exact ⟨s.printing, s.closing, true, rfl⟩

/-- Nothing happens after the process has ended. -/
theorem alive_of_step {s t : WebServer δ} {e : Event δ} (h : step cfg s e = some t) : s.died = false ∧ act cfg s e = some t := by
  unfold step at h
  cases hd : s.died with
  | true =>
    rw [hd] at h
    cases h
  | false =>
    rw [hd] at h
    exact ⟨rfl, h⟩

/-- A session's step leaves `run` where it is, or its handler's exception leaves `run`. -/
theorem phase_moved {s : WebServer δ} {e : Session.Event δ} {session session' : Session δ} (i sessionId : Nat)
    (ha : s.admits e = true) (he : session.step cfg sessionId e = some session') :
    (s.moved i sessionId session').phase = s.phase ∨
      s.runs ∧ session'.crashed = true ∧ (s.moved i sessionId session').phase = .outside := by
  cases hc : session'.crashed with
  | false =>
    left
    simp only [moved, hc, Bool.false_eq_true, if_false]
  | true =>
    right
    cases e with
    | complete c =>
      obtain ⟨-, rfl⟩ := Session.step_complete he
      have hlive : session.crashed = false := Session.step_live he
      have hc : session.crashed = true := hc
      rw [hlive] at hc
      cases hc
    | run c env => exact ⟨of_decide_eq_true ha, rfl, by simp only [moved, hc, if_true]⟩
    | stop => cases ha

theorem steps_of_step {s t : WebServer δ} {e : Event δ} (h : step cfg s e = some t) : Steps cfg s e t := by
  replace h := (alive_of_step h).2
  cases e with
  | start =>
    obtain ⟨hp, h⟩ := Option.ite_none_right_eq_some.mp h
    cases h
    exact .start hp
  | startAccept =>
    obtain ⟨hp, h⟩ := Option.ite_none_right_eq_some.mp h
    cases h
    exact .startAccept hp
  | complete r =>
    obtain ⟨hp, h⟩ := Option.ite_none_right_eq_some.mp h
    cases h
    exact .complete r hp
  | run r =>
    obtain ⟨⟨hrun, hr⟩, h⟩ := Option.ite_none_right_eq_some.mp h
    cases h
    cases r with
    | accepted => exact .accepted hrun hr
    | failed ec => exact .failed ec hrun hr
  | log gone =>
    simp only [act] at h
    split at h
    · rename_i i hp
      cases h
      cases gone with
      | true => exact .gone i hp
      | false => exact .logged i hp
    · cases h
  | post =>
    simp only [act] at h
    split at h
    · rename_i i hp
      cases h
      exact .post i hp
    · cases h
  | check =>
    obtain ⟨hp, h⟩ := Option.ite_none_right_eq_some.mp h
    cases hr : s.running with
    | true =>
      rw [if_pos hr] at h
      cases h
      exact .goesOn hp hr
    | false =>
      rw [if_neg (by simp [hr])] at h
      cases h
      exact .ends hp hr
  | leave =>
    obtain ⟨hp, h⟩ := Option.ite_none_right_eq_some.mp h
    cases h
    exact .leave hp.1 hp.2
  | stop =>
    cases h
    exact .stop
  | print =>
    obtain ⟨hp, h⟩ := Option.ite_none_right_eq_some.mp h
    cases h
    exact .print hp
  | close =>
    obtain ⟨hc, h⟩ := Option.ite_none_right_eq_some.mp h
    cases h
    exact .close hc
  | halt =>
    obtain ⟨hh, h⟩ := Option.ite_none_right_eq_some.mp h
    cases h
    exact .halt hh
  | reset =>
    obtain ⟨hr, h⟩ := Option.ite_none_right_eq_some.mp h
    cases h
    exact .reset hr
  | create i =>
    simp only [act] at h
    split at h
    · rename_i hi
      cases h
      exact .create i hi
    · cases h
  | session i e =>
    simp only [act] at h
    split at h
    · rename_i sessionId session hi
      obtain ⟨ha, h⟩ := Option.ite_none_right_eq_some.mp h
      obtain ⟨session', he, rfl⟩ := Option.map_eq_some_iff.mp h
      exact .session i e sessionId session session' hi ha he
    · cases h

/-- A stopped io_context stays stopped. -/
theorem stopped_stays {s t : WebServer δ} {e : Event δ} (h : s.stopped = true) (hs : step cfg s e = some t) :
    t.stopped = true := by
  cases steps_of_step hs with
  | start hp =>
    unfold start
    split <;> exact h
  | stop =>
    unfold stop
    split <;> exact h
  | print hp =>
    obtain ⟨_, _, _, he⟩ := s.print_eq
    rw [he]
    exact h
  | leave hp hstopped => rfl
  | halt hh => rfl
  | _ => exact h

end WebServer

end BreWebServer.Server
