/-
  BreWebServer.Server.Statistics — the numbers `PrintStats` prints.

  The handler of an accept counts the connection as one more and as one more active; no
  code counts it as active no more. So both numbers are the number of connections accepted,
  as `uint64_t`s (`tallied_after`), and they are the connections accepted and those not over
  in every state of a run exactly when nothing in it is ever over, and fewer than 2^64
  connections come (`exact_iff`).

  A connection is over when its session is closed, and when its session is gone: the handlers
  of its operations hold it, so it goes with the last of them, as where an exception leaves
  the handler of a read after the first (`thrown_session_counted`).
-/

import BreWebServer.Server.Exchange
import BreWebServer.Server.WebServer

namespace BreWebServer.Server

open BreWebServer.Lib BreWebServer.Cpp

variable {δ : Type}

/-- Its session is closed, or destroyed with the handler that held it last, or it was dropped
    before it had one. -/
def Accepted.over : Accepted δ → Bool
  | .handed | .posted => false
  | .started _ session => session.closed || (session.outstanding = 0 && !session.terminated)
  | .dropped => true

namespace WebServer

variable (cfg : Config δ)

/-- The connections that are not over. -/
def active (s : WebServer δ) : List (Accepted δ) := s.connections.filter fun c => !c.over

/-- The statistics are the number of connections accepted and of those not over. -/
structure ExactStats (s : WebServer δ) : Prop where
  total : s.printStats.1.toNat = s.connections.length
  active : s.printStats.2.toNat = s.active.length
  le : s.printStats.2 ≤ s.printStats.1
  zero : (∀ c ∈ s.connections, c.over = true) → s.printStats.2 = 0

/-- A step by which a connection is over. -/
def Finishes (s : WebServer δ) (e : Event δ) : Prop :=
  ∃ (t : WebServer δ) (i : Nat) (c c' : Accepted δ), step cfg s e = some t ∧ s.connections[i]? = some c ∧
    t.connections[i]? = some c' ∧ c.over = false ∧ c'.over = true

/-- A step that accepts one more connection than the counters can count. -/
def Overflows (s : WebServer δ) (e : Event δ) : Prop :=
  ∃ t, step cfg s e = some t ∧ s.connections.length < 2 ^ 64 ∧ 2 ^ 64 ≤ t.connections.length

/-! ## The counters -/

/-- What the counters count. -/
structure Tallied (s : WebServer δ) : Prop where
  total : s.totalConnections = UInt64.ofNat s.connections.length
  active : s.activeConnections = UInt64.ofNat s.connections.length
  logging : ∀ i, s.phase = .logging i → i < s.connections.length

variable {cfg}

theorem tallied_new : Tallied (new : WebServer δ) := ⟨rfl, rfl, fun i h => by cases h⟩

theorem Tallied.of_same {s t : WebServer δ} (h : Tallied s) (htotal : t.totalConnections = s.totalConnections)
    (hactive : t.activeConnections = s.activeConnections) (hlen : t.connections.length = s.connections.length)
    (hphase : ∀ i, t.phase = .logging i → s.phase = .logging i) : Tallied t := by
  refine ⟨?_, ?_, ?_⟩
  · rw [htotal, hlen]
    exact h.total
  · rw [hactive, hlen]
    exact h.active
  · intro i hi
    rw [hlen]
    exact h.logging i (hphase i hi)

/-- Nothing changes the counters but an accept. -/
theorem tallied_step {s t : WebServer δ} {e : Event δ} (h : Tallied s) (hs : step cfg s e = some t) : Tallied t := by
  cases steps_of_step hs with
  | start hp =>
    unfold start
    split
    · exact h
    · exact h.of_same rfl rfl rfl fun i hi => by cases hi
  | startAccept hp => exact h.of_same rfl rfl rfl fun i hi => by cases hi
  | complete r hp => exact h.of_same rfl rfl rfl fun i hi => hi
  | accepted hrun hr =>
    refine ⟨?_, ?_, ?_⟩
    · simp only [onAccept, h.total, List.length_append, List.length_singleton, UInt64.ofNat_add]
      rfl
    · simp only [onAccept, h.active, List.length_append, List.length_singleton, UInt64.ofNat_add]
      rfl
    · intro i hi
      cases hi
      simp [onAccept]
  | failed ec hrun hr => exact h.of_same rfl rfl rfl fun i hi => by cases hi
  | gone i hp => exact h.of_same rfl rfl List.length_set fun i hi => by cases hi
  | logged i hp => exact h.of_same rfl rfl rfl fun i hi => by cases hi
  | post i hp => exact h.of_same rfl rfl List.length_set fun i hi => by cases hi
  | goesOn hp hr => exact h.of_same rfl rfl rfl fun i hi => by cases hi
  | ends hp hr => exact h.of_same rfl rfl rfl fun i hi => by cases hi
  | leave hp hstopped => exact h.of_same rfl rfl rfl fun i hi => by cases hi
  | stop =>
    unfold stop
    split
    · exact h.of_same rfl rfl rfl fun i hi => hi
    · exact h
  | close hc => exact h.of_same rfl rfl rfl fun i hi => hi
  | print hp =>
    obtain ⟨_, _, _, he⟩ := s.print_eq
    rw [he]
    exact h.of_same rfl rfl rfl fun i hi => hi
  | halt hh => exact h.of_same rfl rfl rfl fun i hi => hi
  | reset hr => exact h.of_same rfl rfl rfl fun i hi => hi
  | create i hi => exact h.of_same rfl rfl List.length_set fun i hi => hi
  | session i e sessionId session session' hi ha he =>
    refine h.of_same rfl rfl List.length_set ?_
    intro j hj
    rcases phase_moved i sessionId ha he with hp | ⟨-, -, hp⟩
    · rw [← hp]
      exact hj
    · rw [hp] at hj
      cases hj

theorem tallied_after {es : List (Event δ)} {s : WebServer δ} (h : after cfg es = some s) : Tallied s :=
  Machine.run_invariant tallied_step es tallied_new h

/-! ## When they are exact -/

/-- No connection is over, and the counters can count them all. -/
structure Alive (s : WebServer δ) : Prop where
  connections : ∀ c ∈ s.connections, c.over = false
  few : s.connections.length < 2 ^ 64

theorem alive_new : Alive (new : WebServer δ) := ⟨by simp [new], by simp [new]⟩

theorem exactStats_iff {s : WebServer δ} (h : Tallied s) : ExactStats s ↔ Alive s := by
  have htotal : s.printStats.1.toNat = s.connections.length % 2 ^ 64 := by
    rw [printStats, h.total, UInt64.toNat_ofNat']
  have hactive : s.printStats.2 = s.printStats.1 := h.active.trans h.total.symm
  constructor
  · intro he
    have hfew : s.connections.length < 2 ^ 64 := by
      rw [← he.total, htotal]
      exact Nat.mod_lt _ (by decide)
    refine ⟨?_, hfew⟩
    have hall : s.active.length = s.connections.length := by rw [← he.active, hactive, he.total]
    intro c hc
    simpa using List.length_filter_eq_length_iff.mp hall c hc
  · intro ha
    have hall : s.active = s.connections := List.filter_eq_self.mpr fun c hc => by rw [ha.connections c hc]; rfl
    have hcount : s.printStats.1.toNat = s.connections.length := by rw [htotal, Nat.mod_eq_of_lt ha.few]
    refine ⟨hcount, by rw [hactive, hcount, hall], by rw [hactive]; exact UInt64.le_refl _, ?_⟩
    intro hover
    have hnil : s.connections = [] := by
      refine List.eq_nil_iff_forall_not_mem.mpr ?_
      intro c hc
      have := hover c hc
      rw [ha.connections c hc] at this
      cases this
    rw [hactive, printStats, h.total, hnil]
    rfl

/-- A step accepts one connection, or it leaves their number as it is. -/
theorem accepts_cases {s t : WebServer δ} {e : Event δ} (hs : step cfg s e = some t) :
    t.connections = s.connections ++ [.handed] ∨ t.connections.length = s.connections.length := by
  cases steps_of_step hs with
  | accepted hrun hr => exact .inl rfl
  | start hp =>
    unfold start
    split <;> exact .inr rfl
  | stop =>
    unfold stop
    split <;> exact .inr rfl
  | print hp =>
    obtain ⟨_, _, _, he⟩ := s.print_eq
    rw [he]
    exact .inr rfl
  | gone i hp => exact .inr List.length_set
  | post i hp => exact .inr List.length_set
  | create i hi => exact .inr List.length_set
  | session i e sessionId session session' hi ha he => exact .inr List.length_set
  | _ => exact .inr rfl

theorem alive_step {s t : WebServer δ} {e : Event δ} (h : Alive s) (hok : ¬ Finishes cfg s e ∧ ¬ Overflows cfg s e)
    (hs : step cfg s e = some t) : Alive t := by
  have hfew : t.connections.length < 2 ^ 64 := by
    by_contra hmany
    exact hok.2 ⟨t, hs, h.few, Nat.not_lt.mp hmany⟩
  -- A connection that was there is not over before the step, so it is not after it.
  have hold : ∀ i c', t.connections[i]? = some c' → i < s.connections.length → c'.over = false := by
    intro i c' hi hlt
    have hc := h.connections _ (List.getElem_mem hlt)
    cases hover : c'.over with
    | false => rfl
    | true => exact absurd ⟨t, i, _, c', hs, List.getElem?_eq_getElem hlt, hi, hc, hover⟩ hok.1
  refine ⟨?_, hfew⟩
  intro c hc
  obtain ⟨i, hi⟩ := List.mem_iff_getElem?.mp hc
  have hlt := (List.getElem?_eq_some_iff.mp hi).1
  rcases accepts_cases hs with hnew | hlen
  · by_cases hlast : i < s.connections.length
    · exact hold i c hi hlast
    · rw [hnew, List.length_append, List.length_singleton] at hlt
      obtain rfl : i = s.connections.length := by omega
      rw [hnew, List.getElem?_concat_length] at hi
      cases hi
      rfl
  · exact hold i c hi (by omega)

theorem finishes_step {s : WebServer δ} {e : Event δ} (h : Finishes cfg s e) : ∃ t, step cfg s e = some t ∧ ¬ Alive t := by
  obtain ⟨t, i, c, c', hs, -, hi, -, hover⟩ := h
  refine ⟨t, hs, ?_⟩
  intro hal
  rw [hal.connections c' (List.mem_of_getElem? hi)] at hover
  cases hover

theorem overflows_step {s : WebServer δ} {e : Event δ} (h : Overflows cfg s e) : ∃ t, step cfg s e = some t ∧ ¬ Alive t := by
  obtain ⟨t, hs, -, hmany⟩ := h
  exact ⟨t, hs, fun hal => Nat.not_lt.mpr hmany hal.few⟩

/-- The statistics are exact throughout a run exactly when no connection of it is ever
    over, and fewer than 2^64 are accepted. -/
theorem exact_iff (cfg : Config δ) (es : List (Event δ)) :
    (∀ s, Machine.Visits (step cfg) new es s → ExactStats s) ↔
      ∀ s e, Machine.Takes (step cfg) new es s e → ¬ Finishes cfg s e ∧ ¬ Overflows cfg s e := by
  constructor
  · intro hall s e htake
    obtain ⟨pre, post, rfl, hpre⟩ := htake
    have hnext : ∀ t, step cfg s e = some t → Alive t := by
      intro t hs
      have ht : Machine.run (step cfg) new (pre ++ [e]) = some t := Machine.run_concat_some.mpr ⟨s, hpre, hs⟩
      exact (exactStats_iff (tallied_after ht)).mp (hall t ⟨pre ++ [e], post, by simp, ht⟩)
    refine ⟨?_, ?_⟩
    · intro h
      obtain ⟨t, hs, hover⟩ := finishes_step h
      exact hover (hnext t hs)
    · intro h
      obtain ⟨t, hs, hover⟩ := overflows_step h
      exact hover (hnext t hs)
  · intro hok s hvisit
    have halive : Alive s := Machine.visits_invariant alive_step alive_new hok hvisit
    obtain ⟨pre, post, -, hpre⟩ := hvisit
    exact (exactStats_iff (tallied_after hpre)).mpr halive

/-- A client connects, and hangs up before it has sent a request. -/
def hangUpRun : List (Event Unit) :=
  [.start, .startAccept, .complete .accepted, .run .accepted, .log false, .post, .check, .startAccept, .create 0,
    .session 0 (.complete (.failed .read .other)), .session 0 (.run (.failed .read .other) ⟨site, ()⟩)]

/-- Its session is closed, and counted as active still. -/
theorem closed_session_counted :
    ∃ s, after siteConfig hangUpRun = some s ∧ s.printStats = (1, 1) ∧ s.active.length = 0 ∧ ¬ ExactStats s := by
  have hv : (after siteConfig hangUpRun).map (fun s => decide (s.printStats = (1, 1) ∧ s.active.length = 0)) =
      some true := by decide
  obtain ⟨s, hs, hd⟩ := Option.map_eq_some_iff.mp hv
  obtain ⟨hstats, hactive⟩ := of_decide_eq_true hd
  refine ⟨s, hs, hstats, hactive, ?_⟩
  intro h
  have hcount := h.active
  rw [hstats, hactive] at hcount
  exact absurd hcount (by decide)

/-- A client is answered on a connection that it keeps, and then asks for nothing. -/
def throwRun : List (Event Unit) :=
  hangUpRun.take 9 ++
    [.session 0 (.complete (.read Session.keepAliveRequest)), .session 0 (.run (.read Session.keepAliveRequest) ⟨site, ()⟩),
      .session 0 (.run (.failed .wait .operationAborted) ⟨site, ()⟩), .session 0 (.complete .wrote),
      .session 0 (.run .wrote ⟨site, ()⟩), .session 0 (.complete (.read (ascii "GET  H\r\n\r\n"))),
      .session 0 (.run (.read (ascii "GET  H\r\n\r\n")) ⟨site, ()⟩)]

/-- The exception destroys the session, which was not closed, and it is counted as active still. -/
theorem thrown_session_counted :
    ∃ s, after siteConfig throwRun = some s ∧ s.printStats = (1, 1) ∧ s.active.length = 0 ∧ s.phase = .outside := by
  have hv : (after siteConfig throwRun).map (fun s =>
      decide (s.printStats = (1, 1) ∧ s.active.length = 0 ∧ s.phase = .outside)) = some true := by decide +kernel
  obtain ⟨s, hs, hd⟩ := Option.map_eq_some_iff.mp hv
  exact ⟨s, hs, of_decide_eq_true hd⟩

end WebServer

end BreWebServer.Server
