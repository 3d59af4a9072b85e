/-
  BreWebServer.Server.Shutdown — the idle timeout and what follows `Stop`.

  (1) The timeout. `StartTimer` is called once. `ResetTimer` calls `expires_after`, which
  aborts the wait under way and starts none, so the first read leaves the session without
  one: a run keeps its timeout armed exactly when no read handler of it finds a wait to
  abort (`armed_iff_never_reset`, `first_read_disarms`).

  (2) After `Stop`. The timer's and the write's handlers look at `_closed`, the read's does
  not: nothing happens after the step that closes a session exactly when no successful
  read was queued then (`silent_iff_no_read_queued`, `queued_read_handled_after_stop`).
-/

import BreWebServer.Server.Exchange

namespace BreWebServer.Server

open BreWebServer.Lib BreWebServer.Cpp BreWebServer.Http BreWebServer.Service

namespace Session

variable {δ : Type} (cfg : Config δ) (sessionId : Nat)

/-! ## The closed flag and the timer under the handlers -/

/-- From `s` to `t` the closed flag stays, and so do the timer and the reads queued. -/
structure Steady (s t : Session δ) : Prop where
  closed : t.closed = s.closed
  wait : .wait ∈ t.pending ↔ .wait ∈ s.pending
  expired : .expired ∈ t.ready ↔ .expired ∈ s.ready
  queued : ∀ chunk, .read chunk ∈ t.ready ↔ .read chunk ∈ s.ready

theorem steady_initiate (s : Session δ) {op : Op} (h : op ≠ .wait) : Steady s (s.initiate op) := by
  refine ⟨rfl, ?_, ?_, ?_⟩
  · simp only [initiate]
    split
    · rfl
    · simp [h.symm]
  · simp only [initiate]
    split <;> simp
  · intro chunk
    simp only [initiate]
    split <;> simp

theorem steady_handleRequest (env : Env δ) (s : Session δ) : Steady s (s.handleRequest cfg sessionId env) := by
  rcases handleRequest_cases cfg sessionId env s with ⟨-, _, he⟩ | ⟨b, -, he⟩
  · rw [he]
    exact ⟨rfl, Iff.rfl, Iff.rfl, fun _ => Iff.rfl⟩
  · rw [he]
    obtain ⟨hc, hw, hx, hq⟩ := steady_initiate { s with
      keepAlive := wantsKeepAlive s.request
      handled := s.handled ++ [(s.request, env)]
      writeBuffer := s.writeBuffer ++ b
      written := s.written ++ [s.writeBuffer ++ b] } (show Op.write ≠ .wait by decide)
    exact ⟨hc, hw, hx, hq⟩

/-- The read handler aborts the wait under way and leaves the rest as it was. -/
theorem onRead_timer (env : Env δ) (chunk : Bytes) (s : Session δ) :
    Steady { s with pending := s.pending.filter (· ≠ .wait) } (s.onRead cfg sessionId env (.ok chunk)) := by
  have hr : Steady { s with pending := s.pending.filter (· ≠ .wait) } (s.receive chunk) := by
    refine ⟨rfl, Iff.rfl, ?_, ?_⟩
    · simp [receive, resetTimer, cancel]
    · intro c
      simp [receive, resetTimer, cancel]
  rcases onRead_cases cfg sessionId env chunk s with ⟨q, b, -, he⟩ | ⟨q, b, -, he⟩ | ⟨ex, q, b, -, he⟩
  · obtain ⟨hc, hw, hx, hq⟩ := steady_handleRequest cfg sessionId env
      { s.receive chunk with request := q, readBuffer := b }
    rw [he]
    exact ⟨hc.trans hr.closed, hw.trans hr.wait, hx.trans hr.expired, fun c => (hq c).trans (hr.queued c)⟩
  · obtain ⟨hc, hw, hx, hq⟩ := steady_initiate { s.receive chunk with request := q, readBuffer := b }
      (show Op.read ≠ .wait by decide)
    rw [he]
    exact ⟨hc.trans hr.closed, hw.trans hr.wait, hx.trans hr.expired, fun c => (hq c).trans (hr.queued c)⟩
  · rw [he]
    exact ⟨hr.closed, hr.wait, hr.expired, hr.queued⟩

theorem onRead_disarms (env : Env δ) (chunk : Bytes) (s : Session δ) :
    .wait ∉ (s.onRead cfg sessionId env (.ok chunk)).pending := by
  rw [(onRead_timer cfg sessionId env chunk s).wait]
  simp

/-- `stop` and `onWrite` do one of two things. -/
theorem onWrite_cases (s : Session δ) :
    (s.closed = false ∧ s.onWrite none = { s with writeBuffer := [], request := .fresh }.doRead) ∨
    s.onWrite none = { s with writeBuffer := [] }.stop := by
  simp only [onWrite]
  split
  · rename_i h
    exact .inl ⟨by simpa using h.2, rfl⟩
  · exact .inr rfl

variable {cfg sessionId}

/-! ## (1) The timeout -/

/-- A wait is under way, or its expiry is queued: `HandleTimeout` is still to run. -/
def Armed (s : Session δ) : Prop := .wait ∈ s.pending ∨ .expired ∈ s.ready

instance (s : Session δ) : Decidable (Armed s) := inferInstanceAs (Decidable (_ ∨ _))

/-- The handler of a successful read runs on an open session whose wait is under way. -/
def Disarms (s : Session δ) (e : Event δ) : Prop :=
  ∃ chunk env, e = .run (.read chunk) env ∧ s.closed = false ∧ .wait ∈ s.pending

theorem Steady.armed {s t : Session δ} (h : Steady s t) : Armed t ↔ Armed s := or_congr h.wait h.expired

theorem armed_dequeue {s : Session δ} {c : Completion} (h : Armed s) (hc : c ≠ .expired) : Armed (s.dequeue c) := by
  rcases h with h | h
  · exact .inl h
  · exact .inr ((Multiset.mem_erase_of_ne hc.symm).mpr h)

/-- A wait completes only by expiring. -/
theorem expired_of_possible {c : Completion} (hop : c.op = .wait) (hc : c.possible = true) : c = .expired := by
  cases c with
  | read chunk => cases hop
  | wrote => cases hop
  | expired => rfl
  | failed op ec =>
    cases op with
    | read => cases hop
    | write => cases hop
    | wait => cases hc

theorem armed_complete {s : Session δ} {c : Completion} (h : Armed s) (hc : c.possible = true) : Armed (s.complete c) := by
  rcases h with h | h
  · by_cases hop : c.op = .wait
    · rw [expired_of_possible hop hc]
      exact .inr (Multiset.mem_cons_self _ _)
    · exact .inl ((Multiset.mem_erase_of_ne (Ne.symm hop)).mpr h)
  · exact .inr (Multiset.mem_cons_of_mem h)

theorem armed_step {s t : Session δ} {e : Event δ} (h : s.closed = false → Armed s) (hd : ¬ Disarms s e)
    (hs : step cfg sessionId s e = some t) : t.closed = false → Armed t := by
  intro ht
  cases e with
  | complete c =>
    obtain ⟨⟨-, hc⟩, rfl⟩ := step_complete hs
    exact armed_complete (h ht) hc
  | stop =>
    obtain rfl := step_stop hs
    rw [closed_stop] at ht
    cases ht
  | run c env =>
    obtain ⟨hc, rfl⟩ := step_run hs
    have hstop : ∀ u : Session δ, u.stop.closed ≠ false := by
      intro u
      rw [closed_stop]
      simp
    cases c with
    | read chunk =>
      have hst := onRead_timer cfg sessionId env chunk (s.dequeue (.read chunk))
      have hopen : s.closed = false := hst.closed.symm.trans ht
      rcases h hopen with h | h
      · exact absurd ⟨chunk, env, rfl, hopen, h⟩ hd
      · exact .inr (hst.expired.mpr ((Multiset.mem_erase_of_ne (by simp)).mpr h))
    | wrote =>
      rcases onWrite_cases (s.dequeue .wrote) with ⟨hopen, he⟩ | he
      · rw [handle, he]
        apply (steady_initiate _ (by decide)).armed.mpr
        exact armed_dequeue (h hopen) (by simp)
      · rw [handle, he] at ht
        exact absurd ht (hstop _)
    | expired =>
      simp only [handle, onWait, handleTimeout] at ht
      split at ht
      · rename_i hcl
        rw [hcl] at ht
        cases ht
      · exact absurd ht (hstop _)
    | failed op ec =>
      cases op with
      | read => exact absurd ht (hstop _)
      | write => exact absurd ht (hstop _)
      | wait => exact armed_dequeue (h ht) (by simp)

/-- The waits started whose handlers have not run. -/
def waits (s : Session δ) : Nat := s.outstanding.count .wait

theorem waits_initiate (s : Session δ) {op : Op} (h : op ≠ .wait) : (s.initiate op).waits = s.waits := by
  unfold waits
  rw [outstanding_initiate, Multiset.count_cons_of_ne h.symm]

theorem waits_handleRequest (env : Env δ) (s : Session δ) : (s.handleRequest cfg sessionId env).waits = s.waits := by
  rcases handleRequest_cases cfg sessionId env s with ⟨-, _, he⟩ | ⟨b, -, he⟩
  · rw [he]
    rfl
  · rw [he, doWrite, waits_initiate _ (by decide)]
    rfl

theorem waits_onRead (env : Env δ) (chunk : Bytes) (s : Session δ) :
    (s.onRead cfg sessionId env (.ok chunk)).waits = s.waits := by
  have hr : (s.receive chunk).waits = s.waits := by
    simp only [waits, receive, resetTimer, outstanding_cancel]
    rfl
  rcases onRead_cases cfg sessionId env chunk s with ⟨q, b, -, he⟩ | ⟨q, b, -, he⟩ | ⟨ex, q, b, -, he⟩
  · rw [he, waits_handleRequest, ← hr]
    rfl
  · rw [he, doRead, waits_initiate _ (by decide), ← hr]
    rfl
  · rw [he, ← hr]
    rfl

theorem waits_onWrite (s : Session δ) : (s.onWrite none).waits = s.waits := by
  rcases onWrite_cases s with ⟨-, he⟩ | he
  · rw [he, doRead, waits_initiate _ (by decide)]
    rfl
  · rw [he, waits, outstanding_stop]
    rfl

/-- Only `Start` starts a wait. -/
theorem waits_step {s t : Session δ} {e : Event δ} (h : s.waits ≤ 1) (hs : step cfg sessionId s e = some t) : t.waits ≤ 1 := by
  have hle : ∀ {u : Session δ}, Quieter s u → u.waits ≤ 1 :=
    fun hq => (Multiset.count_le_of_le Op.wait hq.outstanding).trans h
  rcases step_cases hs with hq | ⟨chunk, env, -, hc, rfl⟩ | ⟨env, -, hc, rfl⟩
  · exact hle hq
  · rw [waits_onRead]
    exact hle (quieter_dequeue hc)
  · rw [waits_onWrite]
    exact hle (quieter_dequeue hc)

theorem waits_after {es : List (Event δ)} {s : Session δ} (h : after cfg sessionId es = some s) : s.waits ≤ 1 :=
  Machine.run_invariant waits_step es (show (new : Session δ).start.waits ≤ 1 from Nat.le_refl 1) h

/-- A wait under way has not expired. -/
theorem not_expired {s : Session δ} (h : s.waits ≤ 1) (hw : .wait ∈ s.pending) : .expired ∉ s.ready := by
  intro hx
  have h1 := Multiset.count_pos.mpr hw
  have h2 : 0 < (s.ready.map Completion.op).count .wait := Multiset.count_pos.mpr (Multiset.mem_map_of_mem Completion.op hx)
  unfold waits outstanding at h
  rw [Multiset.count_add] at h
  omega

theorem unarmed_of_disarms {s t : Session δ} {e : Event δ} (h : s.waits ≤ 1) (hd : Disarms s e)
    (hs : step cfg sessionId s e = some t) : t.closed = false ∧ ¬ Armed t := by
  obtain ⟨chunk, env, rfl, hopen, hw⟩ := hd
  obtain ⟨hc, rfl⟩ := step_run hs
  have hst := onRead_timer cfg sessionId env chunk (s.dequeue (.read chunk))
  refine ⟨hst.closed.trans hopen, ?_⟩
  rw [Armed, not_or]
  refine ⟨onRead_disarms cfg sessionId env chunk _, ?_⟩
  intro hx
  exact not_expired h hw (Multiset.mem_of_mem_erase (hst.expired.mp hx))

theorem armed_iff_never_reset {es : List (Event δ)} {s : Session δ} (h : after cfg sessionId es = some s) :
    (∀ t, Machine.Visits (step cfg sessionId) new.start es t → t.closed = false → Armed t) ↔
      ∀ t e, Machine.Takes (step cfg sessionId) new.start es t e → ¬ Disarms t e := by
  constructor
  · intro hall t e ht hd
    obtain ⟨pre, post, rfl, hpre⟩ := ht
    have hsplit : pre ++ e :: post = (pre ++ [e]) ++ post := by simp
    rw [after, hsplit, Machine.run_append] at h
    obtain ⟨u, hu, -⟩ := Option.bind_eq_some_iff.mp h
    obtain ⟨t', ht', hstep⟩ := Machine.run_concat_some.mp hu
    rw [hpre] at ht'
    cases ht'
    obtain ⟨hopen, hna⟩ := unarmed_of_disarms (waits_after hpre) hd hstep
    exact hna (hall u ⟨pre ++ [e], post, hsplit, hu⟩ hopen)
  · intro hok t ht
    have hwait : .wait ∈ (new : Session δ).start.pending := by
      show Op.wait ∈ (.read ::ₘ .wait ::ₘ 0 : Multiset Op)
      decide
    have hstart : (new : Session δ).start.closed = false → Armed (new : Session δ).start := fun _ => .inl hwait
    exact Machine.visits_invariant armed_step hstart hok ht

/-- A session whose timer expires before anything arrives. -/
theorem silent_client_timed_out : ∃ s, after siteConfig 1 [.complete .expired, .run .expired ⟨site, ()⟩] = some s ∧
    ∀ t, Machine.Visits (step siteConfig 1) new.start [.complete .expired, .run .expired ⟨site, ()⟩] t →
      t.closed = false → Armed t := by
  refine ⟨_, rfl, (armed_iff_never_reset rfl).mpr ?_⟩
  intro t e ht hd
  obtain ⟨chunk, env, rfl, -, -⟩ := hd
  obtain ⟨pre, post, he, -⟩ := ht
  have hm : Event.run (.read chunk) env ∈ [Event.complete .expired, .run .expired ⟨site, ()⟩] := by
    rw [he]
    simp
  simp at hm

/-- One byte has arrived: the session is open and reads on, and no wait is left. -/
theorem first_read_disarms : ∃ s, after siteConfig 1 [.complete (.read (ascii "G")), .run (.read (ascii "G")) ⟨site, ()⟩] = some s ∧
    s.closed = false ∧ s.crashed = false ∧ .read ∈ s.pending ∧ ¬ Armed s := by
  have hv : (after siteConfig 1 [.complete (.read (ascii "G")), .run (.read (ascii "G")) ⟨site, ()⟩]).map (fun s =>
      decide (s.closed = false ∧ s.crashed = false ∧ .read ∈ s.pending ∧ ¬ Armed s)) = some true := by decide
  obtain ⟨s, hs, h⟩ := Option.map_eq_some_iff.mp hv
  exact ⟨s, hs, of_decide_eq_true h⟩

/-! ## (2) After `Stop` -/

/-- A step without activity: nothing is started, read, handled or written, and at most
    what is outstanding gets less. -/
structure Silent (s t : Session δ) : Prop where
  started : t.started = s.started
  received : t.received = s.received
  handled : t.handled = s.handled
  written : t.written = s.written
  outstanding : t.outstanding ≤ s.outstanding

/-- A closed session to which nothing can happen any more. -/
structure Quiet (s : Session δ) : Prop where
  closed : s.closed = true
  pending : s.pending = 0
  unread : ∀ chunk, .read chunk ∉ s.ready

theorem stop_of_closed {s : Session δ} (h : s.closed = true) : s.stop = s := by simp [stop, h]

theorem quiet_step {s t : Session δ} {e : Event δ} (h : Quiet s) (hs : step cfg sessionId s e = some t) :
    Quiet t ∧ Silent s t := by
  cases e with
  | complete c =>
    obtain ⟨⟨hp, -⟩, -⟩ := step_complete hs
    rw [h.pending] at hp
    exact absurd hp (Multiset.notMem_zero _)
  | stop =>
    obtain rfl := step_stop hs
    rw [stop_of_closed h.closed]
    exact ⟨h, rfl, rfl, rfl, rfl, le_refl _⟩
  | run c env =>
    obtain ⟨hc, rfl⟩ := step_run hs
    have hq : Quiet (s.dequeue c) := ⟨h.closed, h.pending, fun chunk hm => h.unread chunk (Multiset.mem_of_mem_erase hm)⟩
    have hsil : Silent s (s.dequeue c) := ⟨rfl, rfl, rfl, rfl, (quieter_dequeue hc).outstanding⟩
    cases c with
    | read chunk => exact absurd hc (h.unread chunk)
    | wrote =>
      rcases onWrite_cases (s.dequeue .wrote) with ⟨hopen, -⟩ | he
      · rw [hq.closed] at hopen
        cases hopen
      · have hcl : { s.dequeue .wrote with writeBuffer := [] }.stop = { s.dequeue .wrote with writeBuffer := [] } :=
          stop_of_closed hq.closed
        rw [handle, he, hcl]
        exact ⟨⟨hq.closed, hq.pending, hq.unread⟩, ⟨rfl, rfl, rfl, rfl, hsil.outstanding⟩⟩
    | expired =>
      simp only [handle, onWait, handleTimeout, hq.closed, if_true]
      exact ⟨hq, hsil⟩
    | failed op ec =>
      cases op with
      | read =>
        simp only [handle, onRead, stop_of_closed hq.closed]
        exact ⟨hq, hsil⟩
      | write =>
        simp only [handle, onWrite, stop_of_closed hq.closed]
        exact ⟨hq, hsil⟩
      | wait => exact ⟨hq, hsil⟩

/-- A session closes by `Stop`, on what the handlers before it left of the reads queued. -/
theorem closes_by_stop {s t : Session δ} {e : Event δ} (hopen : s.closed = false) (hs : step cfg sessionId s e = some t)
    (hclosed : t.closed = true) :
    ∃ u : Session δ, t = u.stop ∧ u.closed = false ∧ u.crashed = false ∧ ∀ chunk, .read chunk ∈ u.ready ↔ .read chunk ∈ s.ready := by
  have hlive := step_live hs
  have hdeq : ∀ c, (∀ chunk, c ≠ .read chunk) → ∀ chunk, .read chunk ∈ (s.dequeue c).ready ↔ .read chunk ∈ s.ready :=
    fun c hc chunk => Multiset.mem_erase_of_ne (hc chunk).symm
  cases e with
  | complete c =>
    obtain ⟨-, rfl⟩ := step_complete hs
    rw [complete, hopen] at hclosed
    cases hclosed
  | stop =>
    obtain rfl := step_stop hs
    exact ⟨s, rfl, hopen, hlive, fun _ => Iff.rfl⟩
  | run c env =>
    obtain ⟨-, rfl⟩ := step_run hs
    cases c with
    | read chunk =>
      have hst := onRead_timer cfg sessionId env chunk (s.dequeue (.read chunk))
      have : s.closed = true := hst.closed.symm.trans hclosed
      rw [hopen] at this
      cases this
    | wrote =>
      rcases onWrite_cases (s.dequeue .wrote) with ⟨-, he⟩ | he
      · rw [handle, he] at hclosed
        have : s.closed = true := hclosed
        rw [hopen] at this
        cases this
      · exact ⟨{ s.dequeue .wrote with writeBuffer := [] }, he, hopen, hlive, hdeq .wrote (by simp)⟩
    | expired =>
      refine ⟨s.dequeue .expired, ?_, hopen, hlive, hdeq .expired (by simp)⟩
      have : (s.dequeue .expired).closed = false := hopen
      simp [handle, onWait, handleTimeout, this]
    | failed op ec =>
      cases op with
      | read => exact ⟨s.dequeue (.failed .read ec), rfl, hopen, hlive, hdeq _ (by simp)⟩
      | write => exact ⟨s.dequeue (.failed .write ec), rfl, hopen, hlive, hdeq _ (by simp)⟩
      | wait =>
        have : s.closed = true := hclosed
        rw [hopen] at this
        cases this

/-- What follows the step that closes a session, in every run. -/
theorem silent_iff_no_read_queued (env : Env δ) {s t : Session δ} {e : Event δ} (hopen : s.closed = false)
    (hs : step cfg sessionId s e = some t) (hclosed : t.closed = true) :
    (∀ es' u e' v, Machine.run (step cfg sessionId) t es' = some u → step cfg sessionId u e' = some v → Silent u v) ↔
      ∀ chunk, .read chunk ∉ s.ready := by
  obtain ⟨w, rfl, hw, hlive, hreads⟩ := closes_by_stop hopen hs hclosed
  have hready : ∀ chunk, .read chunk ∈ w.stop.ready ↔ .read chunk ∈ s.ready := by
    intro chunk
    rw [← hreads chunk]
    constructor
    · intro hm
      rcases ready_stop w hm with hm | ⟨op, ec, he⟩
      · exact hm
      · cases he
    · exact ready_of_stop w
  constructor
  · intro hsil chunk hm
    -- The queued read's handler runs, whatever else.
    have hm' := (hready chunk).mpr hm
    have hstep : step cfg sessionId w.stop (.run (.read chunk) env) =
        some ((w.stop.dequeue (.read chunk)).onRead cfg sessionId env (.ok chunk)) := by
      have hl : w.stop.crashed = false := (quieter_stop w).crashed.trans hlive
      simp only [step, hl, hm', and_self, if_true, handle]
    have hr := (hsil [] _ _ _ rfl hstep).received
    rw [received_onRead] at hr
    have := congrArg List.length hr
    simp only [dequeue, List.length_append, List.length_singleton] at this
    omega
  · intro hno es' u e' v hu hv
    have hq : Quiet w.stop := ⟨closed_stop w, pending_stop w hw, fun chunk hm => hno chunk ((hready chunk).mp hm)⟩
    exact (quiet_step (Machine.run_invariant (fun hq hs => (quiet_step hq hs).1) es' hq hu) hv).2

/-- A session stopped while it waits for its client. -/
theorem stopped_session_silent : ∃ s t, after siteConfig 1 [] = some s ∧ step siteConfig 1 s .stop = some t ∧
    ∀ es' u e' v, Machine.run (step siteConfig 1) t es' = some u → step siteConfig 1 u e' = some v → Silent u v := by
  refine ⟨new.start, new.start.stop, rfl, rfl, ?_⟩
  refine (silent_iff_no_read_queued ⟨site, ()⟩ (s := new.start) (e := .stop) rfl rfl (closed_stop _)).mpr ?_
  intro chunk hm
  exact absurd hm (Multiset.notMem_zero _)

/-- The timeout's handler runs while a successful read is queued: the request is parsed and
    handled, and a write started, on the closed session. -/
theorem queued_read_handled_after_stop :
    ∃ s t, after siteConfig 1 [.complete (.read keepAliveRequest), .complete .expired, .run .expired ⟨site, ()⟩] = some s ∧
      step siteConfig 1 s (.run (.read keepAliveRequest) ⟨site, ()⟩) = some t ∧ s.closed = true ∧ s.handled = [] ∧
      t.handled.length = 1 ∧ t.started = s.started ++ [.write] := by
  have hv : (after siteConfig 1 [.complete (.read keepAliveRequest), .complete .expired, .run .expired ⟨site, ()⟩]).bind
      (fun s => (step siteConfig 1 s (.run (.read keepAliveRequest) ⟨site, ()⟩)).map fun t =>
        decide (s.closed = true ∧ s.handled.length = 0 ∧ t.handled.length = 1 ∧ t.started = s.started ++ [.write])) =
      some true := by decide
  obtain ⟨s, hs, hv⟩ := Option.bind_eq_some_iff.mp hv
  obtain ⟨t, ht, hd⟩ := Option.map_eq_some_iff.mp hv
  obtain ⟨hc, hh, hl, hst⟩ := of_decide_eq_true hd
  exact ⟨s, t, hs, ht, hc, List.length_eq_zero_iff.mp hh, hl, hst⟩

end Session

end BreWebServer.Server
