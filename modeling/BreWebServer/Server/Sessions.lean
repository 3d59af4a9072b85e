/-
  BreWebServer.Server.Sessions — the connections of a server, one by one.

  `Moves` says once what a step does to the connections: one is added, or one moves on
  (handed, posted, started; or dropped), or the session of one takes a step of its own.

  (1) `sessions_share_thread`: the session of a connection is in the state after the run's
  events that are its own, from `Start` on, so what is proved of one session's runs holds of
  every session of a server. All their handlers run on the thread that called `Start`: while
  it waits in `run`, a session can take any steps that it could take alone and in which no
  handler throws. Where the io_context is stopped, or a handler's exception has taken the
  thread out of `run`, no handler of any session runs.

  (2) `session_ids`: the ids of the sessions are 1, 2, … as `uint64_t`s, each given once;
  two sessions have one id only when more than 2^64 have been created.
-/

import BreWebServer.Lib.Positions
import BreWebServer.Server.Static
import BreWebServer.Server.WebServer

namespace BreWebServer.Server

open BreWebServer.Lib BreWebServer.Cpp

variable {δ : Type}

/-- The id of the session a connection was given. -/
def Accepted.sessionId : Accepted δ → Option Nat
  | .started sessionId _ => some sessionId
  | _ => none

namespace WebServer

variable (cfg : Config δ)

/-! ## What a step does to the connections -/

/-- Where the handler of an accept has the connection. -/
def Handed (s : WebServer δ) : Prop :=
  ∀ i, s.phase = .logging i ∨ s.phase = .dispatching i → ∃ h : i < s.connections.length, s.connections[i] = .handed

inductive Moves (s : WebServer δ) (e : Event δ) (t : WebServer δ) : Prop
  | same (hc : t.connections = s.connections) (hn : t.sessionCounter = s.sessionCounter)
      (he : ∀ i e', e ≠ .session i e') (hcreate : ∀ i, e ≠ .create i)
  | taken (hc : t.connections = s.connections ++ [.handed]) (hn : t.sessionCounter = s.sessionCounter)
      (he : e = .run .accepted)
  | passed (i : Nat) (c : Accepted δ) (hi : s.connections[i]? = some .handed) (hend : c = .posted ∨ c = .dropped)
      (hc : t.connections = s.connections.set i c) (hn : t.sessionCounter = s.sessionCounter)
      (he : e = .post ∨ e = .log true)
  | created (i : Nat) (hi : s.connections[i]? = some .posted) (hn : t.sessionCounter = s.sessionCounter + 1)
      (hc : t.connections = s.connections.set i (.started (s.sessionCounter + 1).toNat Session.new.start))
      (he : e = .create i)
  | stepped (i : Nat) (e' : Session.Event δ) (sessionId : Nat) (session session' : Session δ)
      (hi : s.connections[i]? = some (.started sessionId session))
      (hs : session.step cfg sessionId e' = some session') (hn : t.sessionCounter = s.sessionCounter)
      (hc : t.connections = s.connections.set i (.started sessionId session')) (he : e = .session i e')

variable {cfg}

theorem moves_step {s t : WebServer δ} {e : Event δ} (h : Handed s) (hs : step cfg s e = some t) : Moves cfg s e t := by
  have hhanded : ∀ i, s.phase = .logging i ∨ s.phase = .dispatching i → s.connections[i]? = some .handed := by
    intro i hp
    obtain ⟨hlt, hi⟩ := h i hp
    rw [List.getElem?_eq_getElem hlt, hi]
  cases steps_of_step hs with
  | start hp =>
    unfold start
    split
    · exact .same rfl rfl (by simp) (by simp)
    · exact .same rfl rfl (by simp) (by simp)
  | stop =>
    unfold stop
    split
    · exact .same rfl rfl (by simp) (by simp)
    · exact .same rfl rfl (by simp) (by simp)
  | print hp =>
    obtain ⟨_, _, _, he⟩ := s.print_eq
    rw [he]
    exact .same rfl rfl (by simp) (by simp)
  | accepted hrun hr => exact .taken rfl rfl rfl
  | gone i hp => exact .passed i .dropped (hhanded i (.inl hp)) (.inr rfl) rfl rfl (.inr rfl)
  | post i hp => exact .passed i .posted (hhanded i (.inr hp)) (.inl rfl) rfl rfl (.inl rfl)
  | create i hi => exact .created i hi rfl rfl rfl
  | session i e' sessionId session session' hi ha he => exact .stepped i e' sessionId session session' hi he rfl rfl rfl
  | startAccept hp | complete r hp | failed ec hrun hr | logged i hp | goesOn hp hr | ends hp hr
  | leave hp hstopped | close hc | halt hh | reset hr => exact .same rfl rfl (by simp) (by simp)

theorem Handed.of_same {s t : WebServer δ} (h : Handed s) (hc : t.connections = s.connections)
    (hp : ∀ i, t.phase = .logging i ∨ t.phase = .dispatching i → s.phase = .logging i ∨ s.phase = .dispatching i) :
    Handed t := by
  intro i hi
  rw [hc]
  exact h i (hp i hi)

/-- A connection that is with no handler can move on. -/
theorem Handed.of_set {s t : WebServer δ} {j : Nat} {c a : Accepted δ} (h : Handed s) (hj : s.connections[j]? = some a)
    (ha : a ≠ .handed) (hc : t.connections = s.connections.set j c) (hp : t.phase = s.phase) : Handed t := by
  intro i hi
  rw [hp] at hi
  obtain ⟨hlt, hhanded⟩ := h i hi
  refine ⟨by rw [hc, List.length_set]; exact hlt, ?_⟩
  simp only [hc, List.getElem_set]
  split
  · rename_i hji
    subst hji
    rw [List.getElem?_eq_getElem hlt, hhanded] at hj
    exact absurd (Option.some.inj hj).symm ha
  · exact hhanded

theorem handed_new : Handed (new : WebServer δ) := by
  intro i hi
  rcases hi with hi | hi <;> cases hi

theorem handed_step {s t : WebServer δ} {e : Event δ} (h : Handed s) (hs : step cfg s e = some t) : Handed t := by
  have hnone : ∀ {u : WebServer δ}, (∀ i, u.phase ≠ .logging i) → (∀ i, u.phase ≠ .dispatching i) → Handed u := by
    intro u hl hd i hi
    rcases hi with hi | hi
    · exact absurd hi (hl i)
    · exact absurd hi (hd i)
  cases steps_of_step hs with
  | start hp =>
    unfold start
    split
    · exact h
    · exact hnone (by simp) (by simp)
  | stop =>
    unfold stop
    split
    · exact h.of_same rfl fun i hi => hi
    · exact h
  | print hp =>
    obtain ⟨_, _, _, he⟩ := s.print_eq
    rw [he]
    exact h.of_same rfl fun i hi => hi
  | accepted hrun hr =>
    intro i hi
    simp only [onAccept, Phase.logging.injEq, reduceCtorEq, or_false] at hi
    subst hi
    exact ⟨by simp [onAccept], by simp [onAccept]⟩
  | logged i hp =>
    refine h.of_same rfl ?_
    intro j hj
    simp only [reduceCtorEq, Phase.dispatching.injEq, false_or] at hj
    rw [← hj]
    exact .inl hp
  | create i hi => exact h.of_set hi (by simp) rfl rfl
  | session i e' sessionId session session' hi ha he =>
    rcases phase_moved i sessionId ha he with hp | ⟨-, -, hp⟩
    · exact h.of_set hi (by simp) rfl hp
    · exact hnone (by simp [hp]) (by simp [hp])
  | reset hr => exact h.of_same rfl fun i hi => hi
  | complete r hp => exact h.of_same rfl fun i hi => hi
  | close hc => exact h.of_same rfl fun i hi => hi
  | halt hh => exact h.of_same rfl fun i hi => hi
  | startAccept hp | failed ec hrun hr | gone i hp | post i hp | goesOn hp hr | ends hp hr | leave hp hstopped =>
    exact hnone (by simp [startAccept]) (by simp [startAccept])

theorem handed_after {es : List (Event δ)} {s : WebServer δ} (h : after cfg es = some s) : Handed s :=
  Machine.run_invariant handed_step es handed_new h

/-! ## (1) A connection's own session -/

/-- What a step is to the session of connection `i`. -/
def ownEvents (i : Nat) : Event δ → List (Session.Event δ)
  | .session j e => if j = i then [e] else []
  | _ => []

/-- The steps of a run that the session of connection `i` takes. -/
def sessionEvents (i : Nat) (es : List (Event δ)) : List (Session.Event δ) := es.flatMap (ownEvents i)

variable (cfg) in
/-- Each session is where its own events have brought it, and no other connection has any. -/
structure Projected (es : List (Event δ)) (s : WebServer δ) : Prop where
  started : ∀ i sessionId session, s.connections[i]? = some (.started sessionId session) →
    Session.after cfg sessionId (sessionEvents i es) = some session
  unstarted : ∀ i, (∀ sessionId session, s.connections[i]? ≠ some (.started sessionId session)) → sessionEvents i es = []

theorem sessionEvents_concat (i : Nat) (es : List (Event δ)) (e : Event δ) :
    sessionEvents i (es ++ [e]) = sessionEvents i es ++ ownEvents i e := by
  simp [sessionEvents]

theorem sessionEvents_other {i : Nat} {e : Event δ} (he : ∀ e', e ≠ .session i e') (es : List (Event δ)) :
    sessionEvents i (es ++ [e]) = sessionEvents i es := by
  rw [sessionEvents_concat]
  cases e with
  | session j e' =>
    have hj : j ≠ i := by
      intro hj
      exact he e' (by rw [hj])
    simp [ownEvents, hj]
  | _ => simp [ownEvents]

/-- A session that is there after a step was there before it, was just started, or took the step. -/
theorem started_from {s t : WebServer δ} {e : Event δ} {i sessionId : Nat} {session : Session δ} (hm : Moves cfg s e t)
    (ht : t.connections[i]? = some (.started sessionId session)) :
    (s.connections[i]? = some (.started sessionId session) ∧ ∀ e', e ≠ .session i e') ∨
    (e = .create i ∧ s.connections[i]? = some .posted ∧ session = Session.new.start) ∨
    ∃ e' before, e = .session i e' ∧ s.connections[i]? = some (.started sessionId before) ∧
      before.step cfg sessionId e' = some session := by
  cases hm with
  | same hc hn he hcreate => exact .inl ⟨by rw [← hc]; exact ht, he i⟩
  | taken hc hn he =>
    subst he
    refine .inl ⟨?_, by simp⟩
    rw [hc, List.getElem?_append] at ht
    split at ht
    · exact ht
    · rw [List.getElem?_singleton] at ht
      split at ht <;> simp at ht
  | passed j c hj hend hc hn he =>
    refine .inl ⟨?_, by rcases he with rfl | rfl <;> simp⟩
    rw [hc, Positions.getElem?_set_iff hj] at ht
    split at ht
    · rcases hend with rfl | rfl <;> cases ht
    · exact ht
  | created j hj hn hc he =>
    subst he
    rw [hc, Positions.getElem?_set_iff hj] at ht
    split at ht
    · rename_i hji
      subst hji
      cases ht
      exact .inr (.inl ⟨rfl, hj, rfl⟩)
    · exact .inl ⟨ht, by simp⟩
  | stepped j e' sid before u hj hs hn hc he =>
    subst he
    rw [hc, Positions.getElem?_set_iff hj] at ht
    split at ht
    · rename_i hji
      subst hji
      cases ht
      exact .inr (.inr ⟨e', before, rfl, hj, hs⟩)
    · rename_i hji
      refine .inl ⟨ht, ?_⟩
      intro e'' heq
      cases heq
      exact hji rfl

/-- A session started stays the connection's, and a step of the server is its own or none. -/
theorem started_step {s t : WebServer δ} {e : Event δ} {i sessionId : Nat} {session : Session δ}
    (hi : s.connections[i]? = some (.started sessionId session)) (hm : Moves cfg s e t) :
    ∃ session', t.connections[i]? = some (.started sessionId session') ∧
      Machine.run (Session.step cfg sessionId) session (ownEvents i e) = some session' := by
  have hkept : t.connections[i]? = some (.started sessionId session) → ownEvents i e = [] →
      ∃ session', t.connections[i]? = some (.started sessionId session') ∧
        Machine.run (Session.step cfg sessionId) session (ownEvents i e) = some session' := by
    intro ht hown
    rw [hown]
    exact ⟨session, ht, rfl⟩
  cases hm with
  | same hc hn he hcreate =>
    refine hkept (by rw [hc, hi]) ?_
    cases e with
    | session j e' => exact absurd rfl (he j e')
    | _ => rfl
  | taken hc hn he =>
    subst he
    refine hkept ?_ rfl
    rw [hc, List.getElem?_append_left (List.getElem?_eq_some_iff.mp hi).1, hi]
  | passed j c hj hend hc hn he =>
    refine hkept ?_ (by rcases he with rfl | rfl <;> rfl)
    rw [hc, Positions.getElem?_set_iff hj]
    split
    · rename_i hji
      subst hji
      rw [hj] at hi
      cases hi
    · exact hi
  | created j hj hn hc he =>
    subst he
    refine hkept ?_ rfl
    rw [hc, Positions.getElem?_set_iff hj]
    split
    · rename_i hji
      subst hji
      rw [hj] at hi
      cases hi
    · exact hi
  | stepped j e' sid u u' hj hs hn hc he =>
    subst he
    by_cases hji : j = i
    · subst hji
      rw [hj] at hi
      cases hi
      refine ⟨u', by rw [hc, Positions.getElem?_set_iff hj, if_pos rfl], ?_⟩
      simp only [ownEvents, if_true, Machine.run, hs]
      rfl
    · refine hkept ?_ (by simp [ownEvents, hji])
      rw [hc, Positions.getElem?_set_iff hj, if_neg hji, hi]

theorem projected_step {es : List (Event δ)} {s t : WebServer δ} {e : Event δ} (h : Projected cfg es s)
    (hm : Moves cfg s e t) : Projected cfg (es ++ [e]) t := by
  refine ⟨?_, ?_⟩
  · intro i sessionId session hi
    rcases started_from hm hi with ⟨hs, he⟩ | ⟨rfl, hs, rfl⟩ | ⟨e', before, rfl, hs, hstep⟩
    · rw [sessionEvents_other he]
      exact h.started i sessionId session hs
    · -- It starts with none of its events behind it.
      rw [sessionEvents_other (by simp), h.unstarted i (by rw [hs]; simp)]
      rfl
    · rw [sessionEvents_concat, ownEvents, if_pos rfl]
      exact Machine.run_concat_some.mpr ⟨before, h.started i sessionId before hs, hstep⟩
  · intro i hi
    have hnone : ∀ sessionId session, s.connections[i]? ≠ some (.started sessionId session) := by
      intro sessionId session hs
      obtain ⟨session', ht, -⟩ := started_step hs hm
      exact hi sessionId session' ht
    rw [sessionEvents_other ?_, h.unstarted i hnone]
    intro e' heq
    cases hm with
    | same hc hn he hcreate => exact he i e' heq
    | stepped j e'' sessionId session session' hj hs hn hc he =>
      rw [heq] at he
      cases he
      exact hnone sessionId session hj
    | taken hc hn he => rw [heq] at he; cases he
    | passed j c hj hend hc hn he => rw [heq] at he; rcases he with he | he <;> cases he
    | created j hj hn hc he => rw [heq] at he; cases he

theorem projected_after {es : List (Event δ)} : ∀ {s : WebServer δ}, after cfg es = some s → Projected cfg es s := by
  induction es using List.reverseRecOn with
  | nil =>
    intro s h
    cases h
    exact ⟨fun i sessionId session hi => (by simp [new] at hi), fun i _ => rfl⟩
  | append_singleton es e ih =>
    intro t h
    obtain ⟨s, hs, ht⟩ := Machine.run_concat_some.mp h
    exact projected_step (ih hs) (moves_step (handed_after hs) ht)

theorem started_run {i sessionId : Nat} (es : List (Event δ)) : ∀ {s t : WebServer δ} {session : Session δ}, Handed s →
    s.connections[i]? = some (.started sessionId session) → Machine.run (step cfg) s es = some t →
    ∃ session', t.connections[i]? = some (.started sessionId session') ∧
      Machine.run (Session.step cfg sessionId) session (sessionEvents i es) = some session' := by
  induction es with
  | nil =>
    intro s t session _ hi h
    cases h
    exact ⟨session, hi, rfl⟩
  | cons e es ih =>
    intro s t session hh hi h
    obtain ⟨u, hu, h⟩ := Option.bind_eq_some_iff.mp h
    obtain ⟨session', hi', hown⟩ := started_step hi (moves_step hh hu)
    obtain ⟨session'', hi'', hrun⟩ := ih (handed_step hh hu) hi' h
    refine ⟨session'', hi'', ?_⟩
    rw [sessionEvents, List.flatMap_cons, Machine.run_append, hown]
    exact hrun

/-- A handler that does not throw leaves the thread in `run`. -/
theorem step_session {s : WebServer δ} {i sessionId : Nat} {e : Session.Event δ} {session session' : Session δ}
    (hlive : s.died = false) (hrun : s.runs) (hi : s.connections[i]? = some (.started sessionId session)) (he : e ≠ .stop)
    (hs : session.step cfg sessionId e = some session') (hc : session'.crashed = false) (ht : session'.terminated = false) :
    step cfg s (.session i e) = some { s with connections := s.connections.set i (.started sessionId session') } := by
  have ha : s.admits e = true := by
    cases e with
    | complete c => rfl
    | run c env => exact decide_eq_true hrun
    | stop => exact absurd rfl he
  simp only [step, hlive, act, hi, ha, hs, Bool.false_eq_true, if_true, if_false, Option.map_some, moved, hc, ht]

/-- What a session can do alone it can do in the server, and nothing else changes. -/
theorem session_alone {i sessionId : Nat} (es : List (Session.Event δ)) : ∀ {s : WebServer δ} {session session' : Session δ},
    s.died = false → s.runs → s.connections[i]? = some (.started sessionId session) →
    (∃ own, Session.after cfg sessionId own = some session) → (∀ e ∈ es, e ≠ .stop) →
    Machine.run (Session.step cfg sessionId) session es = some session' → session'.crashed = false →
    Machine.run (step cfg) s (es.map (.session i)) =
      some { s with connections := s.connections.set i (.started sessionId session') } := by
  induction es with
  | nil =>
    intro s session session' _ _ hi _ _ h _
    cases h
    obtain ⟨hlt, hget⟩ := List.getElem?_eq_some_iff.mp hi
    rw [← hget, List.set_getElem_self]
    rfl
  | cons e es ih =>
    intro s session session' hlive hrun hi hown hes h hc
    obtain ⟨own, hown⟩ := hown
    obtain ⟨u, hu, h⟩ := Option.bind_eq_some_iff.mp h
    have hreach : Session.after cfg sessionId (own ++ [e]) = some u := Machine.run_concat_some.mpr ⟨session, hown, hu⟩
    have hucrashed : u.crashed = false := by
      cases es with
      | nil =>
        cases h
        exact hc
      | cons e' es =>
        obtain ⟨v, hv, -⟩ := Option.bind_eq_some_iff.mp h
        exact Session.step_live hv
    have hstep := step_session hlive hrun hi (hes e List.mem_cons_self) hu hucrashed (Session.terminated_after hreach hucrashed)
    have hmoved : (s.connections.set i (.started sessionId u))[i]? = some (.started sessionId u) := by
      rw [Positions.getElem?_set_iff hi, if_pos rfl]
    have hrest := @ih { s with connections := s.connections.set i (.started sessionId u) } u session' hlive hrun hmoved
      ⟨_, hreach⟩ (fun e he => hes e (List.mem_cons_of_mem _ he)) h hc
    rw [List.map_cons, Machine.run, hstep, Option.bind_some, hrest, List.set_set]

/-- Out of `Start`, the thread is in it again only when it is called. -/
theorem outside_stays {s t : WebServer δ} {e : Event δ} (h : s.phase = .outside) (he : e ≠ .start)
    (hs : step cfg s e = some t) : t.phase = .outside := by
  have hno : ∀ p : Phase, p ≠ .outside → s.phase ≠ p := by
    intro p hp heq
    exact hp (heq.symm.trans h)
  cases steps_of_step hs with
  | start hp => exact absurd rfl he
  | stop =>
    unfold stop
    split <;> exact h
  | print hp =>
    obtain ⟨_, _, _, heq⟩ := s.print_eq
    rw [heq]
    exact h
  | startAccept hp => exact absurd hp (hno _ (by simp))
  | accepted hrun hr => exact absurd hrun.1 (hno _ (by simp))
  | failed ec hrun hr => exact absurd hrun.1 (hno _ (by simp))
  | gone i hp => exact absurd hp (hno _ (by simp))
  | logged i hp => exact absurd hp (hno _ (by simp))
  | post i hp => exact absurd hp (hno _ (by simp))
  | goesOn hp hr => exact absurd hp (hno _ (by simp))
  | ends hp hr => exact absurd hp (hno _ (by simp))
  | leave hp hstopped => exact absurd hp (hno _ (by simp))
  | session i e' sessionId session session' hi ha hstep =>
    rcases phase_moved i sessionId ha hstep with hp | ⟨-, -, hp⟩
    · exact hp.trans h
    · exact hp
  | complete r hp | close hc | halt hh | reset hr | create i hi => exact h

/-- A session steps without a handler where `run` takes none. -/
theorem completes_of_not_runs {s t : WebServer δ} {i : Nat} {e : Session.Event δ} (h : ¬ s.runs)
    (hs : step cfg s (.session i e) = some t) : ∃ c, e = .complete c := by
  cases steps_of_step hs with
  | session i e sessionId session session' hi ha he =>
    cases e with
    | complete c => exact ⟨c, rfl⟩
    | run c env => exact absurd (of_decide_eq_true ha) h
    | stop => cases ha

/-- Through a run in which `run` takes no handler the sessions' operations complete at most. -/
theorem completions_only {I : WebServer δ → Prop} {ok : Event δ → Prop}
    (hI : ∀ {s e t}, I s → ok e → step cfg s e = some t → I t) (hno : ∀ {s}, I s → ¬ s.runs) (i : Nat) (es : List (Event δ))
    (hok : ∀ e ∈ es, ok e) : ∀ {s t : WebServer δ}, I s → Machine.run (step cfg) s es = some t →
      ∀ e ∈ sessionEvents i es, ∃ c, e = .complete c := by
  induction es with
  | nil =>
    intro s t _ _ e he
    cases he
  | cons e es ih =>
    intro s t hs h e' he'
    obtain ⟨u, hu, h⟩ := Option.bind_eq_some_iff.mp h
    rw [sessionEvents, List.flatMap_cons, List.mem_append] at he'
    rcases he' with he' | he'
    · cases e with
      | session j e'' =>
        simp only [ownEvents] at he'
        split at he'
        · rw [List.mem_singleton.mp he']
          exact completes_of_not_runs (hno hs) hu
        · cases he'
      | _ => cases he'
    · exact ih (fun e he => hok e (List.mem_cons_of_mem _ he)) (hI hs (hok e List.mem_cons_self) hu) h e' he'

variable (cfg) in
/-- The session `session` of connection `i`, in state `s` after the events `es`. -/
structure SharesThread (es : List (Event δ)) (s : WebServer δ) (i sessionId : Nat) (session : Session δ) : Prop where
  /-- It is where its own events have brought it. -/
  own : Session.after cfg sessionId (sessionEvents i es) = some session
  /-- It stays the connection's, and goes on by its own events. -/
  stays : ∀ es' t, Machine.run (step cfg) s es' = some t →
    ∃ session', t.connections[i]? = some (.started sessionId session') ∧
      Machine.run (Session.step cfg sessionId) session (sessionEvents i es') = some session'
  /-- While `run` takes handlers it can take any steps in which none of its own throws. -/
  alone : s.died = false → s.runs → ∀ es' session', (∀ e ∈ es', e ≠ .stop) →
    Machine.run (Session.step cfg sessionId) session es' = some session' → session'.crashed = false →
    Machine.run (step cfg) s (es'.map (.session i)) =
      some { s with connections := s.connections.set i (.started sessionId session') }
  /-- No handler of it runs once the io_context is stopped. -/
  stopped : s.stopped = true → ∀ es' t, Machine.run (step cfg) s es' = some t →
    ∀ e ∈ sessionEvents i es', ∃ c, e = .complete c
  /-- An exception of any session's handler takes the thread out of `Start`. -/
  thrown : ∀ j e t id session', step cfg s (.session j e) = some t → t.connections[j]? = some (.started id session') →
    session'.crashed = true → t.phase = .outside
  /-- Nor does one while the thread is out of `Start`, and is not called into it again. -/
  outside : s.phase = .outside → ∀ es' t, (∀ e ∈ es', e ≠ .start) → Machine.run (step cfg) s es' = some t →
    ∀ e ∈ sessionEvents i es', ∃ c, e = .complete c

/-- The sessions of a server, on the one thread that called `Start`. -/
theorem sessions_share_thread {es : List (Event δ)} {s : WebServer δ} {i sessionId : Nat} {session : Session δ}
    (h : after cfg es = some s) (hi : s.connections[i]? = some (.started sessionId session)) :
    SharesThread cfg es s i sessionId session := by
  have hown := (projected_after h).started i sessionId session hi
  refine ⟨hown, ?_, ?_, ?_, ?_, ?_⟩
  · intro es' t ht
    exact started_run es' (handed_after h) hi ht
  · intro hlive hrun es' session' hes hs hc
    exact session_alone es' hlive hrun hi ⟨_, hown⟩ hes hs hc
  · intro hstopped es' t ht
    have hkept : ∀ {u : WebServer δ} {e : Event δ} {v : WebServer δ}, u.stopped = true → True → step cfg u e = some v →
        v.stopped = true := fun hu _ hs => stopped_stays hu hs
    have hno : ∀ {u : WebServer δ}, u.stopped = true → ¬ u.runs := by
      intro u hu hrun
      rw [hrun.2] at hu
      cases hu
    exact completions_only hkept hno i es' (fun _ _ => trivial) hstopped ht
  · intro j e t id session' hs ht hc
    cases steps_of_step hs with
    | session j e sid before u hj ha he =>
      have hu : (s.connections.set j (.started sid u))[j]? = some (.started id session') := ht
      rw [Positions.getElem?_set_iff hj, if_pos rfl] at hu
      cases hu
      simp only [moved, hc, if_true]
  · intro hp es' t hes ht
    refine completions_only (I := fun u => u.phase = .outside) (fun hu he hs => outside_stays hu he hs) ?_ i es' hes hp ht
    intro u hu hrun
    rw [hrun.1] at hu
    cases hu

/-- Two clients connect; the second one's session is created first. -/
def twoClients : List (Event Unit) :=
  [.start, .startAccept, .complete .accepted, .run .accepted, .log false, .post, .check,
    .startAccept, .complete .accepted, .run .accepted, .log false, .post, .create 1, .create 0, .check, .startAccept,
    .session 0 (.complete (.read (ascii "G"))), .session 1 (.complete (.failed .read .other))]

theorem second_client_shares : ∃ s session, after siteConfig twoClients = some s ∧ s.died = false ∧ s.runs ∧
    s.connections[1]? = some (.started 1 session) ∧
    Session.after siteConfig 1 [.complete (.failed .read .other)] = some session ∧
    SharesThread siteConfig twoClients s 1 1 session := by
  have hv : (after siteConfig twoClients).map (fun s =>
      (s.died, decide s.runs, s.connections[1]?.bind Accepted.sessionId)) = some (false, true, some 1) := by decide
  obtain ⟨s, hs, hd⟩ := Option.map_eq_some_iff.mp hv
  simp only [Prod.mk.injEq, decide_eq_true_eq] at hd
  obtain ⟨hlive, hrun, hid⟩ := hd
  obtain ⟨c, hc, hid⟩ := Option.bind_eq_some_iff.mp hid
  cases c with
  | started sessionId session =>
    cases hid
    exact ⟨s, session, hs, hlive, hrun, hc, (sessions_share_thread hs hc).own, sessions_share_thread hs hc⟩
  | _ => cases hid

/-! ## (2) The ids -/

/-- The ids of the sessions started. -/
def sessionIds (s : WebServer δ) : List Nat := s.connections.filterMap Accepted.sessionId

/-- The `k`-th value of the counter. -/
def counterValue (k : Nat) : Nat := (UInt64.ofNat (k + 1)).toNat

structure Numbered (s : WebServer δ) : Prop where
  counter : s.sessionCounter = UInt64.ofNat s.sessionIds.length
  ids : s.sessionIds.Perm ((List.range s.sessionIds.length).map counterValue)

theorem Numbered.of_same {s t : WebServer δ} (h : Numbered s) (hids : t.sessionIds = s.sessionIds)
    (hn : t.sessionCounter = s.sessionCounter) : Numbered t := by
  refine ⟨?_, ?_⟩
  · rw [hn, hids]
    exact h.counter
  · rw [hids]
    exact h.ids

theorem numbered_step {s t : WebServer δ} {e : Event δ} (h : Numbered s) (hm : Moves cfg s e t) : Numbered t := by
  cases hm with
  | same hc hn he hcreate => exact h.of_same (by rw [sessionIds, hc]; rfl) hn
  | taken hc hn he => exact h.of_same (by rw [sessionIds, hc, List.filterMap_append]; exact List.append_nil _) hn
  | passed i c hi hend hc hn he =>
    obtain ⟨hset, hold⟩ := Positions.filterMap_set Accepted.sessionId s.connections c hi
    refine h.of_same ?_ hn
    rw [sessionIds, hc, hset, sessionIds, hold]
    rcases hend with rfl | rfl <;> rfl
  | stepped i e' sessionId session session' hi hs hn hc he =>
    obtain ⟨hset, hold⟩ := Positions.filterMap_set Accepted.sessionId s.connections (.started sessionId session') hi
    refine h.of_same ?_ hn
    rw [sessionIds, hc, hset, sessionIds, hold]
    rfl
  | created i hi hn hc he =>
    obtain ⟨hset, hold⟩ := Positions.filterMap_set Accepted.sessionId s.connections
      (.started (s.sessionCounter + 1).toNat Session.new.start) hi
    have hids : t.sessionIds.Perm ((s.sessionCounter + 1).toNat :: s.sessionIds) := by
      rw [sessionIds, hc, hset, sessionIds, hold]
      simp only [Accepted.sessionId, Option.toList_some, Option.toList_none, List.append_nil]
      rw [List.append_assoc]
      exact List.perm_middle
    have hlen : t.sessionIds.length = s.sessionIds.length + 1 := by rw [hids.length_eq, List.length_cons]
    have hnext : (s.sessionCounter + 1).toNat = counterValue s.sessionIds.length := by
      rw [h.counter, counterValue, UInt64.ofNat_add]
      rfl
    refine ⟨?_, ?_⟩
    · rw [hn, h.counter, hlen, UInt64.ofNat_add]
      rfl
    · rw [hlen, List.range_succ, List.map_append, List.map_singleton, ← hnext]
      exact hids.trans ((List.Perm.cons _ h.ids).trans (List.perm_append_singleton _ _).symm)

theorem numbered_after {es : List (Event δ)} {s : WebServer δ} (h : after cfg es = some s) : Numbered s := by
  have hboth : Handed s ∧ Numbered s := by
    refine Machine.run_invariant (I := fun s : WebServer δ => Handed s ∧ Numbered s) ?_ es ?_ h
    · intro s e t h hs
      exact ⟨handed_step h.1 hs, numbered_step h.2 (moves_step h.1 hs)⟩
    · exact ⟨handed_new, rfl, .nil⟩
  exact hboth.2

/-- The counter's first `n` values differ until it comes round. -/
theorem counterValues_nodup_iff (n : Nat) : ((List.range n).map counterValue).Nodup ↔ n ≤ 2 ^ 64 := by
  have hmod : ∀ k, counterValue k = (k + 1) % 2 ^ 64 := fun k => UInt64.toNat_ofNat
  constructor
  · intro h
    by_contra hn
    have hround : counterValue 0 = counterValue (2 ^ 64) := by
      rw [hmod, hmod]
      rfl
    have hfirst : 0 ∈ List.range n := List.mem_range.mpr (by omega)
    have hlast : 2 ^ 64 ∈ List.range n := List.mem_range.mpr (by omega)
    cases List.inj_on_of_nodup_map h hfirst hlast hround
  · intro h
    refine List.Nodup.map_on ?_ List.nodup_range
    intro a ha b hb heq
    rw [hmod, hmod] at heq
    have ha := List.mem_range.mp ha
    have hb := List.mem_range.mp hb
    omega

/-- The ids of a server's sessions, whatever connections come and go. -/
theorem session_ids {es : List (Event δ)} {s : WebServer δ} (h : after cfg es = some s) :
    s.sessionIds.Perm ((List.range s.sessionIds.length).map counterValue) ∧
    (s.sessionIds.Nodup ↔ s.sessionIds.length ≤ 2 ^ 64) := by
  have hids := (numbered_after h).ids
  exact ⟨hids, hids.nodup_iff.trans (counterValues_nodup_iff _)⟩

theorem two_ids : ∃ s, after siteConfig twoClients = some s ∧ s.sessionIds = [2, 1] ∧ s.sessionIds.Nodup := by
  have hv : (after siteConfig twoClients).map sessionIds = some [2, 1] := by decide
  obtain ⟨s, hs, hd⟩ := Option.map_eq_some_iff.mp hv
  exact ⟨s, hs, hd, (session_ids hs).2.mpr (by rw [hd]; decide)⟩

end WebServer

end BreWebServer.Server
