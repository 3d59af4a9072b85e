/-
  BreWebServer.Server.Accepting — the accept loop.

  A server that runs with its acceptor open has an accept under way, or completed, or its
  thread is on the way to start one; and the handler of an accept does not come to its end
  without that while the server runs. Printing where a connection is from is the one thing
  in the handler that throws, and it does so for a peer that is gone: a run keeps its
  accept loop exactly when no such peer is printed while the server runs (`survives_iff`,
  `peer_gone_ends_loop`). After it the server goes on saying that it runs, and accepts
  nothing more until it is stopped (`deaf_run`).
-/

import BreWebServer.Server.Static
import BreWebServer.Server.WebServer

namespace BreWebServer.Server

open BreWebServer.Lib BreWebServer.Cpp

/-- In the completion handler, its end excluded. -/
def Phase.handling : Phase → Bool
  | .logging _ | .dispatching _ | .checking => true
  | _ => false

/-- Out of the handler, and not about to call `StartAccept`. -/
def Phase.left : Phase → Bool
  | .outside | .waiting => true
  | _ => false

namespace WebServer

variable {δ : Type} (cfg : Config δ)

/-- An accept is under way, or its handler has still to run, or it runs, or `StartAccept`
    is about to be called. -/
def Accepting (s : WebServer δ) : Prop := 0 < s.pending ∨ s.ready ≠ 0 ∨ s.phase.handling = true ∨ s.phase = .startAccept

instance (s : WebServer δ) : Decidable s.Accepting := inferInstanceAs (Decidable (_ ∨ _ ∨ _ ∨ _))

/-- The accept loop survives a run. -/
structure Survives (es : List (Event δ)) : Prop where
  accepting : ∀ s, Machine.Visits (step cfg) new es s → s.running = true → s.acceptorOpen = true → s.Accepting
  /-- No handler leaves while the server runs but by calling `StartAccept`. -/
  goesOn : ∀ s e t, Machine.Takes (step cfg) new es s e → step cfg s e = some t → s.phase.handling = true →
    t.phase.left = true → s.running = false

/-- A running server asks for the address of a peer that is gone. -/
def PeerGone (s : WebServer δ) (e : Event δ) : Prop :=
  s.died = false ∧ s.running = true ∧ (∃ i, s.phase = .logging i) ∧ e = .log true

variable {cfg}

theorem accepting_startAccept {s : WebServer δ} (h : s.acceptorOpen = true) : s.startAccept.Accepting := by
  left
  simp only [startAccept, h, if_true]
  omega

theorem accepting_onAccept (r : AcceptResult) (s : WebServer δ) : (s.onAccept r).Accepting := by
  right; right; left
  cases r with
  | accepted => rfl
  | failed ec => rfl

theorem accepting_start {s : WebServer δ} (h : s.running = true → s.acceptorOpen = true → s.Accepting)
    (hopen : s.start.acceptorOpen = true) : s.start.Accepting := by
  unfold start at hopen ⊢
  split
  · rename_i hr
    rw [if_pos hr] at hopen
    exact h hr hopen
  · exact .inr (.inr (.inr rfl))

theorem running_stop (s : WebServer δ) : s.stop.running = false := by
  unfold stop
  split
  · rfl
  · simpa using ‹¬ s.running = true›

/-- A session's exception leaves the accept that is under way or completed. -/
theorem accepting_moved {s : WebServer δ} {i sessionId : Nat} {session : Session δ} (h : s.Accepting)
    (hp : (s.moved i sessionId session).phase = s.phase ∨ s.runs) : (s.moved i sessionId session).Accepting := by
  rcases h with hpending | hready | hh | hstart
  · exact .inl hpending
  · exact .inr (.inl hready)
  · rcases hp with hp | hrun
    · exact .inr (.inr (.inl (by rw [hp]; exact hh)))
    · rw [hrun.1] at hh
      cases hh
  · rcases hp with hp | hrun
    · exact .inr (.inr (.inr (by rw [hp]; exact hstart)))
    · rw [hrun.1] at hstart
      cases hstart

/-- Every step but that one keeps the loop. -/
theorem accepting_step {s t : WebServer δ} {e : Event δ} (hI : s.running = true → s.acceptorOpen = true → s.Accepting)
    (hgone : ¬ PeerGone s e) (h : step cfg s e = some t) : t.running = true → t.acceptorOpen = true → t.Accepting := by
  intro hrun hopen
  have hlive := (alive_of_step h).1
  cases steps_of_step h with
  | start hp => exact accepting_start hI hopen
  | startAccept hp => exact accepting_startAccept hopen
  | complete r hp => exact .inr (.inl Multiset.cons_ne_zero)
  | accepted hs hr => exact accepting_onAccept .accepted _
  | failed ec hs hr => exact .inr (.inr (.inl rfl))
  | gone i hp => exact absurd ⟨hlive, hrun, ⟨i, hp⟩, rfl⟩ hgone
  | logged i hp => exact .inr (.inr (.inl rfl))
  | post i hp => exact .inr (.inr (.inl rfl))
  | goesOn hp hr => exact .inr (.inr (.inr rfl))
  | ends hp hr =>
    rw [hr] at hrun
    cases hrun
  | leave hp hs =>
    -- What `run` leaves behind is there still.
    rcases hI hrun hopen with hpending | hready | hh | hstart
    · exact .inl hpending
    · exact .inr (.inl hready)
    · rw [hp] at hh
      cases hh
    · rw [hp] at hstart
      cases hstart
  | stop =>
    rw [running_stop] at hrun
    cases hrun
  | print hp =>
    obtain ⟨_, _, _, he⟩ := s.print_eq
    rw [he] at hrun hopen ⊢
    exact hI hrun hopen
  | close hc => cases hopen
  | halt hh => exact hI hrun hopen
  | reset hr => exact hI hrun hopen
  | create i hi => exact hI hrun hopen
  | session i e sessionId session session' hi ha he =>
    exact accepting_moved (hI hrun hopen) ((phase_moved i sessionId ha he).imp_right (·.1))

/-- A handler that leaves has looked at `_running`, or it has thrown. -/
theorem leaves_cases {s t : WebServer δ} {e : Event δ} (h : step cfg s e = some t) (hs : s.phase.handling = true)
    (ht : t.phase.left = true) : s.running = false ∨ (∃ i, s.phase = .logging i) ∧ e = .log true := by
  have hsame : ∀ p : Phase, p.handling = true → p.left = true → False := by
    intro p hh hl
    cases p <;> simp [Phase.handling, Phase.left] at hh hl
  cases steps_of_step h with
  | start hp =>
    rw [hp] at hs
    cases hs
  | startAccept hp =>
    rw [hp] at hs
    cases hs
  | complete r hp => exact (hsame _ hs ht).elim
  | accepted hrun hr =>
    rw [hrun.1] at hs
    cases hs
  | failed ec hrun hr => cases ht
  | gone i hp => exact .inr ⟨⟨i, hp⟩, rfl⟩
  | logged i hp => cases ht
  | post i hp => cases ht
  | goesOn hp hr => cases ht
  | ends hp hr => exact .inl hr
  | leave hp hstopped =>
    rw [hp] at hs
    cases hs
  | stop =>
    unfold stop at ht
    split at ht
    · exact (hsame _ hs ht).elim
    · exact (hsame _ hs ht).elim
  | print hp =>
    obtain ⟨_, _, _, he⟩ := s.print_eq
    rw [he] at ht
    exact (hsame _ hs ht).elim
  | close hc => exact (hsame _ hs ht).elim
  | halt hh => exact (hsame _ hs ht).elim
  | reset hr => exact (hsame _ hs ht).elim
  | create i hi => exact (hsame _ hs ht).elim
  | session i e sessionId session session' hi ha he =>
    rcases phase_moved i sessionId ha he with hp | ⟨hrun, -⟩
    · rw [hp] at ht
      exact (hsame _ hs ht).elim
    · rw [hrun.1] at hs
      cases hs

theorem accepting_visits {es : List (Event δ)} (h : ∀ s e, Machine.Takes (step cfg) new es s e → ¬ PeerGone s e)
    {s : WebServer δ} (hs : Machine.Visits (step cfg) new es s) : s.running = true → s.acceptorOpen = true → s.Accepting := by
  refine Machine.visits_invariant (I := fun s => s.running = true → s.acceptorOpen = true → s.Accepting)
    accepting_step ?_ h hs
  intro hrun
  cases hrun

/-- A run keeps its accept loop exactly when no handler of it asks for the address of a
    peer that is gone while the server runs. -/
theorem survives_iff (cfg : Config δ) (es : List (Event δ)) :
    Survives cfg es ↔ ∀ s e, Machine.Takes (step cfg) new es s e → ¬ PeerGone s e := by
  constructor
  · intro h s e htake hgone
    obtain ⟨hlive, hrun, ⟨i, hp⟩, rfl⟩ := hgone
    have hstep : step cfg s (.log true) = some { s with phase := .outside, connections := s.connections.set i .dropped } := by
      simp only [step, act, hlive, hp, Bool.false_eq_true, if_true, if_false]
    have hstopped := h.goesOn s _ _ htake hstep (by rw [hp]; rfl) rfl
    rw [hrun] at hstopped
    cases hstopped
  · intro h
    refine ⟨fun s hs => accepting_visits h hs, ?_⟩
    intro s e t htake hstep hs ht
    rcases leaves_cases hstep hs ht with hr | ⟨hp, rfl⟩
    · exact hr
    · cases hr : s.running with
      | false => rfl
      | true => exact absurd ⟨(alive_of_step hstep).1, hr, hp, rfl⟩ (h s _ htake)

/-! ## After the exception -/

/-- A server that says it runs, without an accept and without a thread to start one. -/
structure Deaf (s : WebServer δ) : Prop where
  running : s.running = true
  phase : s.phase = .outside
  pending : s.pending = 0
  ready : s.ready = 0

/-- What the exception leaves, where no other accept has been started. -/
theorem deaf_of_peerGone {s t : WebServer δ} {e : Event δ} (h : PeerGone s e) (hp : s.pending = 0) (hr : s.ready = 0)
    (hs : step cfg s e = some t) : Deaf t := by
  obtain ⟨-, hrun, ⟨i, hi⟩, rfl⟩ := h
  replace hs := (alive_of_step hs).2
  simp only [act, hi, if_true] at hs
  cases hs
  exact ⟨hrun, rfl, hp, hr⟩

theorem Deaf.not_accepting {s : WebServer δ} (h : Deaf s) : ¬ s.Accepting := by
  rintro (hp | hr | hh | hs)
  · rw [h.pending] at hp
    cases hp
  · exact hr h.ready
  · rw [h.phase] at hh
    cases hh
  · rw [h.phase] at hs
    cases hs

theorem deaf_step {s t : WebServer δ} {e : Event δ} (h : Deaf s) (he : e ≠ .stop) (hs : step cfg s e = some t) : Deaf t := by
  have hphase : ∀ p : Phase, p ≠ .outside → s.phase ≠ p := by
    intro p hp heq
    exact hp (heq.symm.trans h.phase)
  cases steps_of_step hs with
  | start hp =>
    rw [start, if_pos h.running]
    exact h
  | startAccept hp => exact absurd hp (hphase _ (by simp))
  | complete r hp =>
    rw [h.pending] at hp
    cases hp
  | accepted hrun hr => exact absurd hrun.1 (hphase _ (by simp))
  | failed ec hrun hr => exact absurd hrun.1 (hphase _ (by simp))
  | gone i hp => exact absurd hp (hphase _ (by simp))
  | logged i hp => exact absurd hp (hphase _ (by simp))
  | post i hp => exact absurd hp (hphase _ (by simp))
  | goesOn hp hr => exact absurd hp (hphase _ (by simp))
  | ends hp hr => exact absurd hp (hphase _ (by simp))
  | leave hp hstopped => exact absurd hp (hphase _ (by simp))
  | stop => exact absurd rfl he
  | close hc =>
    refine ⟨h.running, h.phase, rfl, ?_⟩
    simp only [close, h.pending, h.ready, Multiset.replicate_zero, add_zero]
  | print hp =>
    obtain ⟨_, _, _, heq⟩ := s.print_eq
    rw [heq]
    exact ⟨h.running, h.phase, h.pending, h.ready⟩
  | halt hh => exact ⟨h.running, h.phase, h.pending, h.ready⟩
  | reset hr => exact ⟨h.running, h.phase, h.pending, h.ready⟩
  | create i hi => exact ⟨h.running, h.phase, h.pending, h.ready⟩
  | session i e sessionId session session' hi ha hstep =>
    refine ⟨h.running, ?_, h.pending, h.ready⟩
    rcases phase_moved i sessionId ha hstep with hp | ⟨-, -, hp⟩
    · rw [hp, h.phase]
    · exact hp

/-- Such a server accepts nothing more, whatever happens, until `Stop` is called. -/
theorem deaf_run {s t : WebServer δ} {es : List (Event δ)} (h : Deaf s) (hes : ∀ e ∈ es, e ≠ .stop)
    (hs : Machine.run (step cfg) s es = some t) : ¬ t.Accepting := by
  have ht : Deaf t := Machine.run_invariant_on deaf_step es hes h hs
  exact ht.not_accepting

/-- A client connects and is gone before the handler of its accept runs. -/
def peerGoneRun : List (Event Unit) :=
  [.start, .startAccept, .complete .accepted, .run .accepted, .log true]

/-- The exception leaves `Start`: the server says that it runs, its acceptor is open, and
    no accept is under way. -/
theorem peer_gone_ends_loop :
    (∃ s, after siteConfig peerGoneRun = some s ∧ s.running = true ∧ s.acceptorOpen = true ∧ s.phase = .outside ∧
      ¬ s.Accepting) ∧ ¬ Survives siteConfig peerGoneRun := by
  have hv : (after siteConfig peerGoneRun).map (fun s =>
      decide (s.running = true ∧ s.acceptorOpen = true ∧ s.phase = .outside ∧ ¬ s.Accepting)) = some true := by decide
  obtain ⟨s, hs, hd⟩ := Option.map_eq_some_iff.mp hv
  have hend := of_decide_eq_true hd
  refine ⟨⟨s, hs, hend⟩, ?_⟩
  intro h
  exact hend.2.2.2 (h.accepting s ⟨peerGoneRun, [], by simp, hs⟩ hend.1 hend.2.1)

end WebServer

end BreWebServer.Server
