/-
  BreWebServer.Server.Lifetime — how long a session lives.

  The handlers hold the session (`shared_from_this`), so it lives while an operation is
  outstanding. Proved of every reachable state, whatever the order of completions, timeouts
  and stops:

  (1) `one_operation`: until a handler throws, an open session has exactly one read or
  write outstanding, and a closed one has none pending. So a session that nothing holds any
  more has closed its socket.

  (2) `closed_session_ends`: a closed session runs three handlers at most, of which one at
  most handles a request, and there is one to run until nothing is outstanding.

  (3) `persistent_while_asked`: every request handled but the last asked for the connection
  to be kept; after one that did not, no read is started, and the session is closed when
  its response is out.
-/

import BreWebServer.Server.ConnectionHeader

namespace BreWebServer.Server.Session

open BreWebServer.Lib BreWebServer.Cpp BreWebServer.Http BreWebServer.Service

variable {δ : Type} {cfg : Config δ} {sessionId : Nat}

/-! ## (1) What is outstanding -/

/-- The reads and writes started whose handlers have not run. -/
def transfers (s : Session δ) : Nat := s.outstanding.count .read + s.outstanding.count .write

structure Engaged (s : Session δ) : Prop where
  busy : s.crashed = false → s.closed = false → s.transfers = 1
  aborted : s.closed = true → s.pending = 0

theorem transfers_initiate (s : Session δ) {op : Op} (h : op ≠ .wait) : (s.initiate op).transfers = s.transfers + 1 := by
  unfold transfers
  rw [outstanding_initiate]
  cases op with
  | read =>
    rw [Multiset.count_cons_self, Multiset.count_cons_of_ne (by decide)]
    omega
  | write =>
    rw [Multiset.count_cons_self, Multiset.count_cons_of_ne (by decide)]
    omega
  | wait => exact absurd rfl h

/-- A wait's handler leaves the transfers as they are, any other is one fewer. -/
theorem transfers_dequeue (s : Session δ) {c : Completion} (h : c ∈ s.ready) :
    s.transfers = (s.dequeue c).transfers + (if c.op = .wait then 0 else 1) := by
  unfold transfers
  rw [outstanding_dequeue s h]
  cases hop : c.op with
  | read =>
    rw [Multiset.count_cons_self, Multiset.count_cons_of_ne (by decide), if_neg (by decide)]
    omega
  | write =>
    rw [Multiset.count_cons_self, Multiset.count_cons_of_ne (by decide), if_neg (by decide)]
    omega
  | wait => rw [Multiset.count_cons_of_ne (by decide), Multiset.count_cons_of_ne (by decide), if_pos rfl, Nat.add_zero]

theorem pending_initiate (s : Session δ) (op : Op) (h : s.closed = true) : (s.initiate op).pending = s.pending := by
  simp [initiate, h]

/-- A stopped session has nothing pending, if it had nothing when it was closed already. -/
theorem engaged_stop {s : Session δ} (h : s.closed = true → s.pending = 0) : Engaged s.stop := by
  refine ⟨fun _ ho => ?_, fun _ => ?_⟩
  · rw [closed_stop] at ho
    cases ho
  · cases hc : s.closed with
    | false => exact pending_stop s hc
    | true =>
      rw [stop_of_closed hc]
      exact h hc

theorem engaged_initiate {s : Session δ} {op : Op} (hop : op ≠ .wait) (hb : s.closed = false → s.transfers = 0)
    (ha : s.closed = true → s.pending = 0) : Engaged (s.initiate op) := by
  refine ⟨fun _ ho => ?_, fun hc => ?_⟩
  · rw [transfers_initiate s hop, hb ho]
  · rw [pending_initiate s op hc]
    exact ha hc

theorem engaged_crashed {s : Session δ} (hc : s.crashed = true) (ha : s.closed = true → s.pending = 0) : Engaged s := by
  refine ⟨fun hl => ?_, ha⟩
  rw [hc] at hl
  cases hl

theorem engaged_handleRequest (env : Env δ) {s : Session δ} (hb : s.closed = false → s.transfers = 0)
    (ha : s.closed = true → s.pending = 0) : Engaged (s.handleRequest cfg sessionId env) := by
  rcases handleRequest_cases cfg sessionId env s with ⟨-, _, he⟩ | ⟨b, -, he⟩
  · rw [he]
    exact engaged_crashed rfl ha
  · rw [he]
    exact engaged_initiate (by decide) hb ha

theorem engaged_onRead (env : Env δ) (chunk : Bytes) {s : Session δ} (hb : s.closed = false → s.transfers = 0)
    (ha : s.closed = true → s.pending = 0) : Engaged (s.onRead cfg sessionId env (.ok chunk)) := by
  have hb' : s.closed = false → (s.receive chunk).transfers = 0 := by
    intro ho
    rw [← hb ho]
    simp only [transfers, receive, resetTimer, outstanding_cancel]
    rfl
  have ha' : s.closed = true → (s.receive chunk).pending = 0 := by
    intro hc
    have : (s.receive chunk).pending = s.pending.filter fun op => ¬ op = .wait := rfl
    rw [this, ha hc, Multiset.filter_zero]
  rcases onRead_cases cfg sessionId env chunk s with ⟨q, b, -, he⟩ | ⟨q, b, -, he⟩ | ⟨ex, q, b, -, he⟩
  · rw [he]
    exact engaged_handleRequest env hb' ha'
  · rw [he]
    exact engaged_initiate (by decide) hb' ha'
  · rw [he]
    exact engaged_crashed rfl ha'

theorem engaged_onWrite {s : Session δ} (hb : s.closed = false → s.transfers = 0) (ha : s.closed = true → s.pending = 0) :
    Engaged (s.onWrite none) := by
  rcases onWrite_cases s with ⟨-, he⟩ | he
  · rw [he]
    exact engaged_initiate (by decide) hb ha
  · rw [he]
    exact engaged_stop ha

theorem engaged_step {s t : Session δ} {e : Event δ} (h : Engaged s) (hs : step cfg sessionId s e = some t) : Engaged t := by
  have hlive := step_live hs
  cases e with
  | complete c =>
    obtain ⟨⟨hp, -⟩, rfl⟩ := step_complete hs
    refine ⟨fun hl ho => ?_, fun hc => ?_⟩
    · rw [transfers, outstanding_complete s hp]
      exact h.busy hl ho
    · rw [h.aborted hc] at hp
      exact absurd hp (Multiset.notMem_zero _)
  | stop =>
    obtain rfl := step_stop hs
    exact engaged_stop h.aborted
  | run c env =>
    obtain ⟨hc, rfl⟩ := step_run hs
    have hcount := transfers_dequeue s hc
    -- The handler of a read or a write runs with neither outstanding beside it.
    have hb : c.op ≠ .wait → (s.dequeue c).closed = false → (s.dequeue c).transfers = 0 := by
      intro hop ho
      have := h.busy hlive ho
      rw [if_neg hop] at hcount
      omega
    have ha : (s.dequeue c).closed = true → (s.dequeue c).pending = 0 := h.aborted
    cases c with
    | read chunk => exact engaged_onRead env chunk (hb (by simp [Completion.op])) ha
    | wrote => exact engaged_onWrite (hb (by simp [Completion.op])) ha
    | expired =>
      cases ho : (s.dequeue .expired).closed with
      | false =>
        simp only [handle, onWait, handleTimeout, ho, Bool.false_eq_true, if_false]
        exact engaged_stop ha
      | true =>
        simp only [handle, onWait, handleTimeout, ho, if_true]
        refine ⟨fun _ hopen => ?_, ha⟩
        rw [ho] at hopen
        cases hopen
    | failed op ec =>
      cases op with
      | read => exact engaged_stop ha
      | write => exact engaged_stop ha
      | wait =>
        refine ⟨fun hl ho => ?_, ha⟩
        simp only [Completion.op, if_true, Nat.add_zero] at hcount
        exact hcount.symm.trans (h.busy hlive ho)

theorem engaged_after {es : List (Event δ)} {s : Session δ} (h : after cfg sessionId es = some s) : Engaged s := by
  refine Machine.run_invariant engaged_step es ⟨fun _ _ => rfl, fun hc => ?_⟩ h
  cases hc

/-- Whatever happened to a session, until a handler of it throws. -/
theorem one_operation {es : List (Event δ)} {s : Session δ} (h : after cfg sessionId es = some s) (hlive : s.crashed = false) :
    (s.closed = false → s.outstanding.count .read + s.outstanding.count .write = 1) ∧
    (s.closed = true → s.pending = 0) ∧ (s.outstanding = 0 → s.closed = true) := by
  have he := engaged_after h
  refine ⟨he.busy hlive, he.aborted, ?_⟩
  intro ho
  by_contra hc
  have := he.busy hlive (by simpa using hc)
  rw [transfers, ho] at this
  cases this

/-- The client hangs up: the read fails, the socket is closed, and the aborted wait is the
    last that holds the session. -/
theorem hangUp_one_operation : ∃ s, after siteConfig 1
    [.complete (.failed .read .other), .run (.failed .read .other) ⟨site, ()⟩,
      .run (.failed .wait .operationAborted) ⟨site, ()⟩] = some s ∧ s.crashed = false ∧ s.outstanding = 0 ∧ s.closed = true := by
  have hv : (after siteConfig 1
      [.complete (.failed .read .other), .run (.failed .read .other) ⟨site, ()⟩,
        .run (.failed .wait .operationAborted) ⟨site, ()⟩]).map (fun s => decide (s.crashed = false ∧ s.outstanding = 0)) =
      some true := by decide
  obtain ⟨s, hs, hd⟩ := Option.map_eq_some_iff.mp hv
  obtain ⟨hlive, ho⟩ := of_decide_eq_true hd
  exact ⟨s, hs, hlive, ho, (one_operation hs hlive).2.2 ho⟩

/-! ## (2) After the socket is closed -/

def Completion.isRead : Completion → Bool
  | .read _ => true
  | _ => false

/-- The successful reads whose handlers have not run. -/
def queued (s : Session δ) : Nat := s.ready.countP fun c => Completion.isRead c = true

/-- What a closed session has still to do: a queued read can start one operation more. -/
def left (s : Session δ) : Nat := s.outstanding.card + s.queued

theorem queued_cancel (p : Op → Prop) [DecidablePred p] (s : Session δ) : (s.cancel p).queued = s.queued := by
  simp only [queued, cancel, Multiset.countP_add, Multiset.countP_map]
  simp [Completion.isRead]

theorem queued_initiate (op : Op) (s : Session δ) : (s.initiate op).queued = s.queued := by
  simp only [queued, initiate]
  split
  · rw [Multiset.countP_cons_of_neg _ (by simp [Completion.isRead])]
  · rfl

theorem queued_dequeue (s : Session δ) {c : Completion} (h : c ∈ s.ready) :
    s.queued = (s.dequeue c).queued + (if Completion.isRead c = true then 1 else 0) := by
  unfold queued
  conv_lhs => rw [← Multiset.cons_erase h, Multiset.countP_cons]
  rfl

theorem card_dequeue (s : Session δ) {c : Completion} (h : c ∈ s.ready) :
    s.outstanding.card = (s.dequeue c).outstanding.card + 1 := by
  rw [outstanding_dequeue s h, Multiset.card_cons]

theorem queued_le (s : Session δ) : s.queued ≤ s.outstanding.count .read := by
  have hread : ∀ c : Completion, Completion.isRead c = true → .read = c.op := by
    intro c hc
    cases c with
    | read chunk => rfl
    | _ => cases hc
  have hle : s.queued ≤ (s.ready.map Completion.op).count .read := by
    rw [Multiset.count_map, queued, Multiset.countP_eq_card_filter]
    exact Multiset.card_le_card (Multiset.monotone_filter_right _ hread)
  rw [outstanding, Multiset.count_add]
  omega

/-- From `s` to `t` one thing less is left to do, and what is handled was queued. -/
structure Winds (s t : Session δ) : Prop where
  closed : t.closed = true
  left : t.left + 1 ≤ s.left
  handled : t.handled.length + t.queued ≤ s.handled.length + s.queued

theorem winds_dequeue {s : Session δ} {c : Completion} (hc : s.closed = true) (h : c ∈ s.ready) : Winds s (s.dequeue c) := by
  have hcard := card_dequeue s h
  have hq := queued_dequeue s h
  refine ⟨hc, ?_, ?_⟩
  · unfold left
    omega
  · show s.handled.length + (s.dequeue c).queued ≤ s.handled.length + s.queued
    omega

variable (cfg sessionId) in
/-- The read handler handles one request at most, and starts one operation at most. -/
theorem onRead_once (env : Env δ) (chunk : Bytes) (s : Session δ) :
    (s.onRead cfg sessionId env (.ok chunk)).closed = s.closed ∧
    (s.onRead cfg sessionId env (.ok chunk)).queued = s.queued ∧
    (s.onRead cfg sessionId env (.ok chunk)).outstanding.card ≤ s.outstanding.card + 1 ∧
    (s.onRead cfg sessionId env (.ok chunk)).handled.length ≤ s.handled.length + 1 := by
  have hq : (s.receive chunk).queued = s.queued := queued_cancel (· = .wait) _
  have ho : (s.receive chunk).outstanding = s.outstanding := outstanding_cancel (· = .wait) _
  rcases onRead_cases cfg sessionId env chunk s with ⟨q, b, -, he⟩ | ⟨q, b, -, he⟩ | ⟨ex, q, b, -, he⟩
  · rw [he]
    rcases handleRequest_cases cfg sessionId env { s.receive chunk with request := q, readBuffer := b } with
      ⟨-, _, he'⟩ | ⟨bytes, -, he'⟩
    · rw [he']
      refine ⟨rfl, hq, ?_, ?_⟩
      · exact Nat.le_succ_of_le (le_of_eq (congrArg Multiset.card ho))
      · simp [receive, resetTimer, cancel]
    · rw [he']
      refine ⟨rfl, (queued_initiate .write _).trans hq, ?_, ?_⟩
      · rw [doWrite, outstanding_initiate, Multiset.card_cons]
        exact Nat.succ_le_succ (le_of_eq (congrArg Multiset.card ho))
      · simp [doWrite, initiate, receive, resetTimer, cancel]
  · rw [he]
    refine ⟨rfl, (queued_initiate .read _).trans hq, ?_, Nat.le_succ _⟩
    rw [doRead, outstanding_initiate, Multiset.card_cons]
    exact Nat.succ_le_succ (le_of_eq (congrArg Multiset.card ho))
  · rw [he]
    exact ⟨rfl, hq, Nat.le_succ_of_le (le_of_eq (congrArg Multiset.card ho)), Nat.le_succ _⟩

/-- A step of a closed session other than a further `Stop`. -/
theorem winds_step {s t : Session δ} {e : Event δ} (he : Engaged s) (hc : s.closed = true) (hstop : e ≠ .stop)
    (hs : step cfg sessionId s e = some t) : Winds s t := by
  cases e with
  | complete c =>
    obtain ⟨⟨hp, -⟩, -⟩ := step_complete hs
    rw [he.aborted hc] at hp
    exact absurd hp (Multiset.notMem_zero _)
  | stop => exact absurd rfl hstop
  | run c env =>
    obtain ⟨hm, rfl⟩ := step_run hs
    have hd := winds_dequeue hc hm
    have hcl : (s.dequeue c).closed = true := hc
    cases c with
    | read chunk =>
      obtain ⟨hclosed, hq, hcard, hh⟩ := onRead_once cfg sessionId env chunk (s.dequeue (.read chunk))
      have hqueued := queued_dequeue s hm
      have hcards := card_dequeue s hm
      simp only [Completion.isRead, if_true] at hqueued
      refine ⟨hclosed.trans hc, ?_, ?_⟩
      · simp only [left, handle, hq]
        omega
      · simp only [handle, hq]
        have : (s.dequeue (.read chunk)).handled.length = s.handled.length := rfl
        omega
    | wrote =>
      rcases onWrite_cases (s.dequeue .wrote) with ⟨hopen, -⟩ | heq
      · rw [hcl] at hopen
        cases hopen
      · rw [handle, heq, stop_of_closed (s := { s.dequeue .wrote with writeBuffer := [] }) hcl]
        exact ⟨hd.closed, hd.left, hd.handled⟩
    | expired =>
      simp only [handle, onWait, handleTimeout, hcl, if_true]
      exact hd
    | failed op ec =>
      cases op with
      | read =>
        simp only [handle, onRead, stop_of_closed hcl]
        exact hd
      | write =>
        simp only [handle, onWrite, stop_of_closed hcl]
        exact hd
      | wait => exact hd

theorem winds_run {es : List (Event δ)} {s t : Session δ} (he : Engaged s) (hc : s.closed = true)
    (hstop : ∀ e ∈ es, e ≠ .stop) (h : Machine.run (step cfg sessionId) s es = some t) :
    es.length ≤ s.left ∧ t.handled.length ≤ s.handled.length + s.queued ∧ t.closed = true := by
  have hI : ∀ {s t : Session δ} {e : Event δ}, Engaged s ∧ s.closed = true → e ≠ .stop → step cfg sessionId s e = some t →
      Engaged t ∧ t.closed = true :=
    fun hs he ht => ⟨engaged_step hs.1 ht, (winds_step hs.1 hs.2 he ht).closed⟩
  have hlength := Machine.run_balance (fun _ => true) (fun _ => false) left hI
    (fun hs he ht => (winds_step hs.1 hs.2 he ht).left) es hstop ⟨he, hc⟩ h
  have hhandled := Machine.run_balance (fun _ => false) (fun _ => false) (fun s : Session δ => s.handled.length + s.queued) hI
    (fun hs he ht => (winds_step hs.1 hs.2 he ht).handled) es hstop ⟨he, hc⟩ h
  simp only [List.countP_true, List.countP_false, Function.const_apply] at hlength hhandled
  exact ⟨by omega, by omega, (Machine.run_invariant_on hI es hstop ⟨he, hc⟩ h).2⟩

/-- At most one read or write and one wait are outstanding. -/
theorem left_after {es : List (Event δ)} {s : Session δ} (h : after cfg sessionId es = some s) : s.left ≤ 3 ∧ s.queued ≤ 1 := by
  obtain ⟨cur, hsync⟩ := synced_after h
  have hone := hsync.one
  have hwait : s.outstanding.count .wait ≤ 1 := waits_after h
  have hq := queued_le s
  have hops : s.outstanding ≤ Multiset.replicate (s.outstanding.count .read) .read +
      Multiset.replicate (s.outstanding.count .write) .write + Multiset.replicate (s.outstanding.count .wait) .wait := by
    refine Multiset.le_iff_count.mpr ?_
    intro op
    cases op <;> simp [Multiset.count_replicate]
  have hcard := Multiset.card_le_card hops
  simp only [Multiset.card_add, Multiset.card_replicate] at hcard
  refine ⟨?_, by omega⟩
  unfold left
  omega

/-- What a session does after it is closed. -/
theorem closed_session_ends {es es' : List (Event δ)} {s t : Session δ} (h : after cfg sessionId es = some s)
    (hc : s.closed = true) (hstop : ∀ e ∈ es', e ≠ .stop) (ht : Machine.run (step cfg sessionId) s es' = some t) :
    es'.length ≤ 3 ∧ t.handled.length ≤ s.handled.length + 1 ∧
    (t.crashed = true ∨ t.outstanding = 0 ∨ ∃ c ∈ t.ready, ∀ env, (step cfg sessionId t (.run c env)).isSome = true) := by
  have he := engaged_after h
  obtain ⟨hleft, hq⟩ := left_after h
  obtain ⟨hlen, hh, hclosed⟩ := winds_run he hc hstop ht
  refine ⟨by omega, by omega, ?_⟩
  cases hcr : t.crashed with
  | true => exact .inl rfl
  | false =>
    right
    rcases Multiset.empty_or_exists_mem t.ready with hr | ⟨c, hm⟩
    · left
      have hp := (Machine.run_invariant engaged_step es' he ht).aborted hclosed
      rw [outstanding, hp, hr]
      rfl
    · right
      refine ⟨c, hm, ?_⟩
      intro env
      simp [step, hcr, hm]

/-- `Stop` finds a read queued: its request is handled, the response is refused by the closed
    socket, and with the aborted wait these are the three. -/
theorem stopped_ends_in_three :
    ∃ s t, after siteConfig 1 [.complete (.read keepAliveRequest), .stop] = some s ∧ s.closed = true ∧
      Machine.run (step siteConfig 1) s [.run (.read keepAliveRequest) ⟨site, ()⟩,
        .run (.failed .wait .operationAborted) ⟨site, ()⟩, .run (.failed .write .other) ⟨site, ()⟩] = some t ∧
      t.handled.length = 1 ∧ (t.crashed = true ∨ t.outstanding = 0 ∨
        ∃ c ∈ t.ready, ∀ env, (step siteConfig 1 t (.run c env)).isSome = true) := by
  have hv : (after siteConfig 1 [.complete (.read keepAliveRequest), .stop]).bind (fun s =>
      (Machine.run (step siteConfig 1) s [.run (.read keepAliveRequest) ⟨site, ()⟩,
        .run (.failed .wait .operationAborted) ⟨site, ()⟩, .run (.failed .write .other) ⟨site, ()⟩]).map fun t =>
      decide (s.closed = true ∧ t.handled.length = 1)) = some true := by decide
  obtain ⟨s, hs, hv⟩ := Option.bind_eq_some_iff.mp hv
  obtain ⟨t, ht, hd⟩ := Option.map_eq_some_iff.mp hv
  obtain ⟨hc, hh⟩ := of_decide_eq_true hd
  exact ⟨s, t, hs, hc, ht, hh, (closed_session_ends hs hc (by simp) ht).2.2⟩

/-! ## (3) Keeping the connection -/

/-- The requests handled asked for the connection to be kept, up to the one whose response
    is not out. -/
structure Persistent (s : Session δ) : Prop where
  last : ∀ q, s.handled.getLast? = some q → s.keepAlive = wantsKeepAlive q.1
  earlier : ∀ q ∈ s.handled.dropLast, wantsKeepAlive q.1 = true
  reading : .read ∈ s.outstanding → ∀ q ∈ s.handled, wantsKeepAlive q.1 = true

theorem persistent_of_same {s t : Session δ} (h : Persistent s) (hh : t.handled = s.handled) (hk : t.keepAlive = s.keepAlive)
    (hr : .read ∈ t.outstanding → .read ∈ s.outstanding) : Persistent t := by
  refine ⟨?_, ?_, ?_⟩
  · rw [hh, hk]
    exact h.last
  · rw [hh]
    exact h.earlier
  · rw [hh]
    exact fun hm => h.reading (hr hm)

theorem persistent_of_unhandled {s : Session δ} (h : s.handled = []) : Persistent s := by
  refine ⟨?_, ?_, ?_⟩
  · rw [h]
    intro q hq
    cases hq
  · rw [h]
    intro q hq
    cases hq
  · rw [h]
    intro _ q hq
    cases hq

theorem persistent_quieter {s t : Session δ} (h : Persistent s) (hq : Quieter s t) (hk : t.keepAlive = s.keepAlive) :
    Persistent t :=
  persistent_of_same h hq.handled hk fun hm => Multiset.mem_of_le hq.outstanding hm

theorem keepAlive_quieter {s t : Session δ} {e : Event δ} (hs : step cfg sessionId s e = some t) (hq : Quieter s t) :
    t.keepAlive = s.keepAlive := by
  refine (keepAlive_step hs ?_).1
  intro chunk env he
  subst he
  obtain ⟨-, rfl⟩ := step_run hs
  -- The read would have been received.
  have hr := congrArg List.length hq.received
  rw [handle, received_onRead] at hr
  simp [dequeue] at hr

/-- The last of the requests handled is the one that may not have asked. -/
theorem persistent_handleRequest (env : Env δ) {s : Session δ} (h : ∀ q ∈ s.handled, wantsKeepAlive q.1 = true)
    (hi : Idle s) : Persistent (s.handleRequest cfg sessionId env) := by
  have hlast : ∀ q, (s.handled ++ [(s.request, env)]).getLast? = some q → wantsKeepAlive s.request = wantsKeepAlive q.1 := by
    intro q hq
    simp only [List.getLast?_append, List.getLast?_singleton, Option.some_or, Option.some.injEq] at hq
    rw [← hq]
  have hearlier : ∀ q ∈ (s.handled ++ [(s.request, env)]).dropLast, wantsKeepAlive q.1 = true := by
    intro q hq
    simp only [List.dropLast_concat] at hq
    exact h q hq
  rcases handleRequest_cases cfg sessionId env s with ⟨-, _, he⟩ | ⟨b, -, he⟩
  · rw [he]
    exact ⟨hlast, hearlier, fun hm => absurd hm hi.1⟩
  · rw [he]
    refine ⟨hlast, hearlier, ?_⟩
    intro hm
    rw [doWrite, outstanding_initiate] at hm
    rcases Multiset.mem_cons.mp hm with hm | hm
    · cases hm
    · exact absurd hm hi.1

theorem persistent_onRead (env : Env δ) (chunk : Bytes) {s : Session δ} (h : ∀ q ∈ s.handled, wantsKeepAlive q.1 = true)
    (hlast : ∀ q, s.handled.getLast? = some q → s.keepAlive = wantsKeepAlive q.1) (hi : Idle s) :
    Persistent (s.onRead cfg sessionId env (.ok chunk)) := by
  have hi' := idle_receive hi chunk
  have hdrop : ∀ q ∈ s.handled.dropLast, wantsKeepAlive q.1 = true := fun q hq => h q (List.mem_of_mem_dropLast hq)
  rcases onRead_cases cfg sessionId env chunk s with ⟨q, b, -, he⟩ | ⟨q, b, -, he⟩ | ⟨ex, q, b, -, he⟩
  · rw [he]
    exact persistent_handleRequest env h hi'
  · rw [he]
    exact ⟨hlast, hdrop, fun _ => h⟩
  · rw [he]
    exact ⟨hlast, hdrop, fun _ => h⟩

theorem persistent_step {s t : Session δ} {cur : Bytes} {e : Event δ} (hsync : Synced cfg sessionId s cur)
    (h : Persistent s) (hs : step cfg sessionId s e = some t) : Persistent t := by
  rcases step_cases hs with hq | ⟨chunk, env, -, hc, rfl⟩ | ⟨env, -, hc, rfl⟩
  · exact persistent_quieter h hq (keepAlive_quieter hs hq)
  · exact persistent_onRead env chunk (h.reading (mem_outstanding s hc)) h.last (idle_dequeue hsync hc (by simp [Completion.op]))
  · simp only [onWrite]
    split
    · rename_i hk
      -- It reads on because the last request asked for it.
      refine ⟨h.last, h.earlier, fun _ q hq => ?_⟩
      rcases List.eq_nil_or_concat s.handled with hnil | ⟨init, last, hcons⟩
      · have hq : q ∈ s.handled := hq
        rw [hnil] at hq
        cases hq
      · have hq : q ∈ s.handled := hq
        rw [hcons, List.concat_eq_append, List.mem_append, List.mem_singleton] at hq
        rcases hq with hq | rfl
        · refine h.earlier q ?_
          rw [hcons, List.concat_eq_append, List.dropLast_concat]
          exact hq
        · rw [← h.last q (by rw [hcons]; simp)]
          exact hk.1
    · refine persistent_of_same h ?_ ?_ ?_
      · exact (quieter_stop _).handled
      · exact keepAlive_stop _
      · intro hm
        rw [outstanding_stop] at hm
        exact Multiset.mem_of_le (quieter_dequeue hc).outstanding hm

theorem persistent_after {es : List (Event δ)} {s : Session δ} (h : after cfg sessionId es = some s) : Persistent s := by
  have hboth : (∃ cur, Synced cfg sessionId s cur) ∧ Persistent s := by
    refine Machine.run_invariant (I := fun s => (∃ cur, Synced cfg sessionId s cur) ∧ Persistent s) ?_ es
      ⟨⟨[], synced_start⟩, ?_⟩ h
    · intro s e t h hs
      obtain ⟨⟨cur, hsync⟩, hp⟩ := h
      exact ⟨synced_step ⟨cur, hsync⟩ hs, persistent_step hsync hp hs⟩
    · exact persistent_of_unhandled rfl
  exact hboth.2

/-- Which requests one connection serves. -/
theorem persistent_while_asked {es : List (Event δ)} {s : Session δ} (h : after cfg sessionId es = some s) :
    (∀ q ∈ s.handled.dropLast, wantsKeepAlive q.1 = true) ∧
    ∀ q, s.handled.getLast? = some q → wantsKeepAlive q.1 = false →
      .read ∉ s.outstanding ∧ (s.crashed = false → .write ∉ s.outstanding → s.closed = true) := by
  have hp := persistent_after h
  refine ⟨hp.earlier, ?_⟩
  intro q hq hasked
  have hread : .read ∉ s.outstanding := by
    intro hm
    have := hp.reading hm q (List.mem_of_getLast? hq)
    rw [hasked] at this
    cases this
  refine ⟨hread, ?_⟩
  intro hlive hwrite
  by_contra hc
  have hbusy := (engaged_after h).busy hlive (by simpa using hc)
  rw [transfers, Multiset.count_eq_zero.mpr hread, Multiset.count_eq_zero.mpr hwrite] at hbusy
  cases hbusy

/-- A request that does not ask is answered, and the session closes. -/
theorem unasked_closes : ∃ s, after siteConfig 1 (exchange (ascii "GET / H\r\n\r\n")) = some s ∧ s.handled.length = 1 ∧
    .read ∉ s.outstanding ∧ s.closed = true := by
  have hv : (after siteConfig 1 (exchange (ascii "GET / H\r\n\r\n"))).map (fun s =>
      decide (s.crashed = false ∧ s.handled.length = 1 ∧ s.outstanding.count .write = 0 ∧
        s.handled.getLast?.map (fun q => wantsKeepAlive q.1) = some false)) = some true := by decide
  obtain ⟨s, hs, hd⟩ := Option.map_eq_some_iff.mp hv
  obtain ⟨hlive, hh, hw, hlast⟩ := of_decide_eq_true hd
  obtain ⟨q, hq, hasked⟩ := Option.map_eq_some_iff.mp hlast
  obtain ⟨hread, hclosed⟩ := (persistent_while_asked hs).2 q hq hasked
  exact ⟨s, hs, hh, hread, hclosed hlive (Multiset.count_eq_zero.mp hw)⟩

end BreWebServer.Server.Session
