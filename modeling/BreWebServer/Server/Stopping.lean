/-
  BreWebServer.Server.Stopping — what `Stop` brings to an end.

  `Stop` may be called from any number of threads at any time: `main`'s signal handler and
  the destructor call it, and a second call may overtake the first. Proved of every run:

  (1) `stop_once`: `Stop` closes the acceptor no more often than `Start` set `_running`,
  and stops the io_context no more often than it closed the acceptor.

  (2) `closed_accepts_queued`: from where the acceptor is closed, the connections taken and
  the completed accepts still queued are together as many as they were, whatever is called.
  So no later client is taken, and where `run` returns without having been stopped, all the
  queued ones have been.

  (3) `start_returns`: from where the io_context is stopped, no connection is taken at all,
  and the thread in `Start` leaves it within five steps of its own, none of which waits
  for anything. So a server that is started again returns at once. Only the end of the
  process comes before.
-/

import BreWebServer.Server.Static
import BreWebServer.Server.WebServer

namespace BreWebServer.Server

open BreWebServer.Lib BreWebServer.Cpp

/-- The steps of `Start` that lie before its thread, at most. -/
def Phase.rank : Phase → Nat
  | .outside => 0
  | .waiting => 1
  | .startAccept => 2
  | .checking => 3
  | .dispatching _ => 4
  | .logging _ => 5

namespace WebServer

variable {δ : Type} {cfg : Config δ}

/-- A step of the thread in `Start`. -/
def Event.ofThread : Event δ → Bool
  | .startAccept | .run _ | .log _ | .post | .check | .leave | .session _ (.run _ _) => true
  | _ => false

def Event.isStart : Event δ → Bool
  | .start => true
  | _ => false

def Event.isClose : Event δ → Bool
  | .close => true
  | _ => false

def Event.isHalt : Event δ → Bool
  | .halt => true
  | _ => false

/-! ## (1) One shutdown for each start -/

theorem closing_step {s t : WebServer δ} {e : Event δ} (hs : step cfg s e = some t) :
    t.printing + t.closing + t.running.toNat + e.isClose.toNat ≤
      s.printing + s.closing + s.running.toNat + e.isStart.toNat := by
  cases steps_of_step hs with
  | start hp =>
    unfold start
    split
    · exact Nat.le_add_right _ _
    · simp only [Event.isClose, Event.isStart, Bool.toNat_true, Bool.toNat_false]
      omega
  | stop =>
    unfold stop
    split
    · rename_i hr
      simp only [hr, Event.isClose, Event.isStart, Bool.toNat_true, Bool.toNat_false]
      omega
    · exact le_refl _
  | print hp =>
    unfold print
    split
    · simp only [Event.isClose, Event.isStart, Bool.toNat_false]
      omega
    · exact le_refl _
  | close hc =>
    simp only [close, Event.isClose, Event.isStart, Bool.toNat_true, Bool.toNat_false]
    omega
  | accepted _ _ | startAccept _ | complete _ _ | failed _ _ _ | gone _ _ | logged _ _ | post _ _ | goesOn _ _ | ends _ _
  | leave _ _ | halt _ | reset _ | create _ _ | session _ _ _ _ _ _ _ _ => exact le_refl _

theorem halting_step {s t : WebServer δ} {e : Event δ} (hs : step cfg s e = some t) :
    t.halting + e.isHalt.toNat ≤ s.halting + e.isClose.toNat := by
  cases steps_of_step hs with
  | start hp =>
    unfold start
    split <;> exact le_refl _
  | stop =>
    unfold stop
    split <;> exact le_refl _
  | print hp =>
    unfold print
    split <;> exact le_refl _
  | close hc => exact le_refl _
  | halt hh =>
    simp only [halt, Event.isHalt, Event.isClose, Bool.toNat_true, Bool.toNat_false]
    omega
  | accepted _ _ | startAccept _ | complete _ _ | failed _ _ _ | gone _ _ | logged _ _ | post _ _ | goesOn _ _ | ends _ _
  | leave _ _ | reset _ | create _ _ | session _ _ _ _ _ _ _ _ => exact le_refl _

/-- However often `Stop` is called, and by whom. -/
theorem stop_once {es : List (Event δ)} {s : WebServer δ} (h : after cfg es = some s) :
    es.countP Event.isHalt ≤ es.countP Event.isClose ∧ es.countP Event.isClose ≤ es.countP Event.isStart := by
  have hhalt := Machine.run_balance (I := fun _ => True) Event.isHalt Event.isClose halting
    (fun _ _ _ => trivial) (fun _ _ hs => halting_step hs) es (fun _ _ => trivial) trivial h
  have hclose := Machine.run_balance (I := fun _ => True) Event.isClose Event.isStart
    (fun s : WebServer δ => s.printing + s.closing + s.running.toNat) (fun _ _ _ => trivial) (fun _ _ hs => closing_step hs) es
    (fun _ _ => trivial) trivial h
  simp only [new, Bool.toNat_false] at hhalt hclose
  omega

/-- A client connects while two threads call `Stop`. -/
def stoppedTwice : List (Event Unit) := [.start, .startAccept, .complete .accepted, .stop, .stop, .print, .close]

theorem second_stop_idle : ∃ s, after siteConfig (stoppedTwice ++ [Event.halt]) = some s ∧
    (stoppedTwice ++ [Event.halt]).countP Event.isClose ≤ (stoppedTwice ++ [Event.halt]).countP Event.isStart := by
  have hv : (after siteConfig (stoppedTwice ++ [Event.halt])).isSome = true := by decide
  obtain ⟨s, hs⟩ := Option.isSome_iff_exists.mp hv
  exact ⟨s, hs, (stop_once hs).2⟩

/-! ## (2) The acceptor closed -/

/-- A closed acceptor has no accept under way. -/
def Shut (s : WebServer δ) : Prop := s.acceptorOpen = false → s.pending = 0

/-- The connections taken and those whose handlers are still to run. -/
def arrived (s : WebServer δ) : Nat := s.connections.length + s.ready.count .accepted

theorem shut_step {s t : WebServer δ} {e : Event δ} (h : Shut s) (hs : step cfg s e = some t) : Shut t := by
  cases steps_of_step hs with
  | start hp =>
    unfold start
    split <;> exact h
  | stop =>
    unfold stop
    split <;> exact h
  | print hp =>
    unfold print
    split <;> exact h
  | startAccept hp =>
    intro hopen
    have hopen : s.acceptorOpen = false := hopen
    simp only [startAccept, hopen, Bool.false_eq_true, if_false]
    exact h hopen
  | complete r hp =>
    intro hopen
    rw [h hopen] at hp
    cases hp
  | close hc => exact fun _ => rfl
  | accepted _ _ | failed _ _ _ | gone _ _ | logged _ _ | post _ _ | goesOn _ _ | ends _ _
  | leave _ _ | halt _ | reset _ | create _ _ | session _ _ _ _ _ _ _ _ => exact h

theorem shut_after {es : List (Event δ)} {s : WebServer δ} (h : after cfg es = some s) : Shut s :=
  Machine.run_invariant shut_step es (fun hopen => by cases hopen) h

/-- A closed acceptor stays closed, and nothing more arrives at it. -/
theorem arrived_step {s t : WebServer δ} {e : Event δ} (hopen : s.acceptorOpen = false) (h : Shut s)
    (hs : step cfg s e = some t) : t.acceptorOpen = false ∧ t.arrived = s.arrived := by
  cases steps_of_step hs with
  | start hp =>
    unfold start
    split <;> exact ⟨hopen, rfl⟩
  | stop =>
    unfold stop
    split <;> exact ⟨hopen, rfl⟩
  | print hp =>
    unfold print
    split <;> exact ⟨hopen, rfl⟩
  | startAccept hp =>
    refine ⟨hopen, ?_⟩
    simp only [startAccept, arrived, hopen, Bool.false_eq_true, if_false]
    rw [Multiset.count_cons_of_ne (by simp)]
  | complete r hp =>
    rw [h hopen] at hp
    cases hp
  | accepted hrun hr =>
    refine ⟨hopen, ?_⟩
    have hpos := Multiset.count_pos.mpr hr
    simp only [onAccept, arrived, List.length_append, List.length_singleton, Multiset.count_erase_self]
    omega
  | failed ec hrun hr =>
    refine ⟨hopen, ?_⟩
    simp only [arrived]
    rw [Multiset.count_erase_of_ne (by simp)]
  | gone i hp => exact ⟨hopen, by simp only [arrived, List.length_set]⟩
  | post i hp => exact ⟨hopen, by simp only [arrived, List.length_set]⟩
  | create i hi => exact ⟨hopen, by simp only [arrived, List.length_set]⟩
  | session i e' sessionId session session' hi ha he => exact ⟨hopen, by simp only [moved, arrived, List.length_set]⟩
  | close hc =>
    refine ⟨rfl, ?_⟩
    simp only [close, arrived, Multiset.count_add, h hopen, Multiset.replicate_zero, Multiset.count_zero, Nat.add_zero]
  | logged _ _ | goesOn _ _ | ends _ _ | leave _ _ | halt _ | reset _ => exact ⟨hopen, rfl⟩

/-- Where `run` returns and was not stopped, no accept that has completed is left. -/
theorem taken_of_leave {s t : WebServer δ} (hrun : s.stopped = false) (hs : step cfg s .leave = some t) :
    t.connections.length = s.arrived := by
  cases steps_of_step hs with
  | leave hp hstopped =>
    rcases hstopped with hstopped | ⟨-, hready, -⟩
    · rw [hrun] at hstopped
      cases hstopped
    · simp only [arrived, hready, Multiset.count_zero, Nat.add_zero]

/-- What a closed acceptor still gives. -/
theorem closed_accepts_queued {es es' : List (Event δ)} {s t : WebServer δ} (h : after cfg es = some s)
    (hopen : s.acceptorOpen = false) (ht : Machine.run (step cfg) s es' = some t) :
    t.acceptorOpen = false ∧ t.arrived = s.arrived ∧ t.connections.length ≤ s.arrived ∧
    (t.stopped = false → ∀ u, step cfg t .leave = some u → u.connections.length = s.arrived) := by
  have hinv : t.acceptorOpen = false ∧ Shut t ∧ t.arrived = s.arrived := by
    refine Machine.run_invariant (I := fun u : WebServer δ => u.acceptorOpen = false ∧ Shut u ∧ u.arrived = s.arrived) ?_ es'
      ⟨hopen, shut_after h, rfl⟩ ht
    intro u e v h hs
    obtain ⟨ho, hshut, harrived⟩ := h
    obtain ⟨ho', harrived'⟩ := arrived_step ho hshut hs
    exact ⟨ho', shut_step hshut hs, harrived'.trans harrived⟩
  obtain ⟨hopen', -, harrived⟩ := hinv
  refine ⟨hopen', harrived, ?_, ?_⟩
  · rw [← harrived]
    exact Nat.le_add_right _ _
  · intro hrun u hu
    rw [← harrived]
    exact taken_of_leave hrun hu

/-- The client that connected before the acceptor was closed is taken after it, and the
    count of those that arrived stays one. -/
theorem queued_client_taken : ∃ s t, after siteConfig stoppedTwice = some s ∧ s.connections.length = 0 ∧
    Machine.run (step siteConfig) s [.run .accepted, .log false, .post, .check] = some t ∧
    t.connections.length = 1 ∧ t.arrived = s.arrived := by
  have hv : (after siteConfig stoppedTwice).bind (fun s =>
      (Machine.run (step siteConfig) s [.run .accepted, .log false, .post, .check]).map fun t =>
        decide (s.acceptorOpen = false ∧ s.connections.length = 0 ∧ t.connections.length = 1)) = some true := by decide
  obtain ⟨s, hs, hv⟩ := Option.bind_eq_some_iff.mp hv
  obtain ⟨t, ht, hd⟩ := Option.map_eq_some_iff.mp hv
  obtain ⟨hopen, hnone, hone⟩ := of_decide_eq_true hd
  exact ⟨s, t, hs, hnone, ht, hone, (closed_accepts_queued hs hopen ht).2.1⟩

/-! ## (3) The io_context stopped -/

theorem stopped_step {s t : WebServer δ} {e : Event δ} (h : s.stopped = true) (hs : step cfg s e = some t) :
    t.connections.length = s.connections.length ∧
      (e ≠ .start → t.phase.rank + e.ofThread.toNat ≤ s.phase.rank) := by
  have hnot : s.stopped = false → False := by
    intro hf
    rw [h] at hf
    cases hf
  cases steps_of_step hs with
  | start hp =>
    unfold start
    split
    · exact ⟨rfl, fun hne => absurd rfl hne⟩
    · exact ⟨rfl, fun hne => absurd rfl hne⟩
  | stop =>
    unfold stop
    split <;> exact ⟨rfl, fun _ => le_refl _⟩
  | print hp =>
    unfold print
    split <;> exact ⟨rfl, fun _ => le_refl _⟩
  | accepted hrun hr => exact (hnot hrun.2).elim
  | failed ec hrun hr => exact (hnot hrun.2).elim
  | startAccept hp =>
    refine ⟨rfl, fun _ => ?_⟩
    rw [hp]
    exact Nat.le_refl 2
  | gone i hp =>
    refine ⟨List.length_set, fun _ => ?_⟩
    rw [hp]
    exact Nat.le_add_left 1 4
  | logged i hp =>
    refine ⟨rfl, fun _ => ?_⟩
    rw [hp]
    exact Nat.le_refl 5
  | post i hp =>
    refine ⟨List.length_set, fun _ => ?_⟩
    rw [hp]
    exact Nat.le_refl 4
  | goesOn hp hr =>
    refine ⟨rfl, fun _ => ?_⟩
    rw [hp]
    exact Nat.le_refl 3
  | ends hp hr =>
    refine ⟨rfl, fun _ => ?_⟩
    rw [hp]
    exact Nat.le_succ 2
  | leave hp hstopped =>
    refine ⟨rfl, fun _ => ?_⟩
    rw [hp]
    exact Nat.le_refl 1
  | create i hi => exact ⟨List.length_set, fun _ => le_refl _⟩
  | session i e' sessionId session session' hi ha he =>
    refine ⟨List.length_set, fun _ => ?_⟩
    cases e' with
    | complete c =>
      rcases phase_moved i sessionId ha he with hp | ⟨hrun, -⟩
      · rw [hp]
        exact le_refl _
      · exact (hnot hrun.2).elim
    | run c env => exact (hnot (of_decide_eq_true ha : s.runs).2).elim
    | stop => cases ha
  | halt hh => exact ⟨rfl, fun _ => le_refl _⟩
  | reset hr => exact ⟨rfl, fun _ => le_refl _⟩
  | complete r hp => exact ⟨rfl, fun _ => le_refl _⟩
  | close hc => exact ⟨rfl, fun _ => le_refl _⟩

/-- A thread that is in `Start` can go on where the io_context is stopped. -/
theorem thread_enabled (cfg : Config δ) {s : WebServer δ} (h : s.stopped = true) (hlive : s.died = false) :
    s.phase = .outside ∨ ∃ e : Event δ, e.ofThread = true ∧ (step cfg s e).isSome = true := by
  cases hp : s.phase with
  | outside => exact .inl rfl
  | startAccept => exact .inr ⟨.startAccept, rfl, by simp [step, act, hlive, hp]⟩
  | waiting => exact .inr ⟨.leave, rfl, by simp [step, act, hlive, hp, h]⟩
  | logging i => exact .inr ⟨.log false, rfl, by simp [step, act, hlive, hp]⟩
  | dispatching i => exact .inr ⟨.post, rfl, by simp [step, act, hlive, hp]⟩
  | checking => exact .inr ⟨.check, rfl, by simp [step, act, hlive, hp]⟩

theorem rank_le (p : Phase) : p.rank ≤ 5 := by
  cases p <;> simp [Phase.rank]

/-- What follows where `Stop` has come to its end. -/
theorem start_returns {es : List (Event δ)} {s t : WebServer δ} (h : s.stopped = true)
    (ht : Machine.run (step cfg) s es = some t) :
    t.connections.length = s.connections.length ∧
    ((∀ e ∈ es, e ≠ .start) → es.countP Event.ofThread ≤ 5) ∧
    (t.died = false → t.phase = .outside ∨ ∃ e : Event δ, e.ofThread = true ∧ (step cfg t e).isSome = true) := by
  have hstopped : t.stopped = true ∧ t.connections.length = s.connections.length := by
    refine Machine.run_invariant
      (I := fun u : WebServer δ => u.stopped = true ∧ u.connections.length = s.connections.length) ?_ es ⟨h, rfl⟩ ht
    intro u e v hu hs
    exact ⟨stopped_stays hu.1 hs, (stopped_step hu.1 hs).1.trans hu.2⟩
  refine ⟨hstopped.2, ?_, thread_enabled cfg hstopped.1⟩
  intro hstart
  have hbound := Machine.run_balance (I := fun u : WebServer δ => u.stopped = true)
    Event.ofThread (fun _ => false) (fun u : WebServer δ => u.phase.rank) (fun hu _ hs => stopped_stays hu hs)
    (fun hu he hs => (stopped_step hu hs).2 he) es hstart h ht
  have := rank_le s.phase
  simp only [List.countP_false, Function.const_apply] at hbound
  omega

/-- `Stop` comes to its end while the thread prints where a client is from. It leaves, and
    is out again at once when `Start` is called again, though the server says that it runs. -/
theorem stopped_while_logging : ∃ s t,
    after siteConfig [.start, .startAccept, .complete .accepted, .run .accepted, .stop, .print, .close, .halt] = some s ∧
    Machine.run (step siteConfig) s [.log false, .post, .check, .leave, .start, .startAccept, .leave] = some t ∧
    t.running = true ∧ t.phase = .outside ∧ t.connections.length = s.connections.length := by
  have hv : (after siteConfig [.start, .startAccept, .complete .accepted, .run .accepted, .stop, .print, .close, .halt]).bind
      (fun s => (Machine.run (step siteConfig) s [.log false, .post, .check, .leave, .start, .startAccept, .leave]).map
        fun t => decide (s.stopped = true ∧ t.running = true ∧ t.phase = .outside)) = some true := by decide
  obtain ⟨s, hs, hv⟩ := Option.bind_eq_some_iff.mp hv
  obtain ⟨t, ht, hd⟩ := Option.map_eq_some_iff.mp hv
  obtain ⟨hstopped, hrun, hphase⟩ := of_decide_eq_true hd
  exact ⟨s, t, hs, ht, hrun, hphase, (start_returns hstopped ht).1⟩

end WebServer

end BreWebServer.Server
