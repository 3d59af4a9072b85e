/-
  BreWebServer.Server.Exchange — what a session reads and answers.

  `Synced s cur`: the requests handled were read one behind the other off the stream
  received, `cur` of it is left, the parser stands where it would stand on `cur` alone,
  and what was written is what these requests are answered. It holds of every reachable
  state (`synced_after`), whatever the order of completions, timeouts and stops. From it:

  (1) Answers in order (`answers_in_order`): until a handler throws, what was written is the
  responses to the first requests of the stream, each a function of that request, the
  session's id and the files and database it was handled in; one read or write at most is
  outstanding, and the write buffer is empty or holds the response being written.

  (2) One request for each read (`all_handled_iff_reads_keep_up`): after a response the
  session waits for bytes before it looks at those it has, so requests that come together
  are handled only as further reads arrive (`pipelined_request_left`).

  (3) Waiting for more data (`more_data_iff_viable`): what a session waits to complete can
  be completed exactly when no line of it is malformed (`malformed_line_waits_forever`).
-/

import BreWebServer.Lib.Backlog
import BreWebServer.Server.Session
import BreWebServer.Server.Static
import BreWebServer.Http.Viability

namespace BreWebServer.Server

open BreWebServer.Lib BreWebServer.Cpp BreWebServer.Http BreWebServer.Service

namespace Session

variable {δ : Type} (cfg : Config δ) (sessionId : Nat)

/-- No read and no write is outstanding. -/
def Idle (s : Session δ) : Prop := .read ∉ s.outstanding ∧ .write ∉ s.outstanding

structure Synced (s : Session δ) (cur : Bytes) : Prop where
  reads : Reads s.received.flatten (s.handled.map (·.1)) cur
  one : s.outstanding.count .read + s.outstanding.count .write ≤ 1
  reading : .read ∈ s.outstanding →
    s.writeBuffer = [] ∧ ∀ c, parse s.request (s.readBuffer ++ c) = parse .fresh (cur ++ c)
  writing : .write ∈ s.outstanding → s.readBuffer = cur ∧ s.written.getLast? = some s.writeBuffer
  replies : s.written = s.handled.filterMap (reply cfg sessionId)
  answered : s.crashed = false → ∀ h ∈ s.handled, (reply cfg sessionId h).isSome

/-! ## Steps that only complete or cancel -/

/-- `t` is `s`, but for operations completed or cancelled and the closed flag. -/
structure Quieter (s t : Session δ) : Prop where
  readBuffer : t.readBuffer = s.readBuffer
  writeBuffer : t.writeBuffer = s.writeBuffer
  request : t.request = s.request
  crashed : t.crashed = s.crashed
  received : t.received = s.received
  handled : t.handled = s.handled
  written : t.written = s.written
  outstanding : t.outstanding ≤ s.outstanding

theorem Quieter.refl (s : Session δ) : Quieter s s := ⟨rfl, rfl, rfl, rfl, rfl, rfl, rfl, le_refl _⟩

theorem Quieter.trans {s t u : Session δ} (h : Quieter s t) (h' : Quieter t u) : Quieter s u :=
  ⟨h'.readBuffer.trans h.readBuffer, h'.writeBuffer.trans h.writeBuffer, h'.request.trans h.request,
    h'.crashed.trans h.crashed, h'.received.trans h.received, h'.handled.trans h.handled,
    h'.written.trans h.written, h'.outstanding.trans h.outstanding⟩

theorem quieter_stop (s : Session δ) : Quieter s s.stop := by
  have ho : s.stop.outstanding ≤ s.outstanding := le_of_eq (outstanding_stop s)
  unfold stop at ho ⊢
  split
  · exact Quieter.refl s
  · rename_i hc
    rw [if_neg hc] at ho
    exact ⟨rfl, rfl, rfl, rfl, rfl, rfl, rfl, ho⟩

theorem quieter_dequeue {s : Session δ} {c : Completion} (h : c ∈ s.ready) : Quieter s (s.dequeue c) := by
  refine ⟨rfl, rfl, rfl, rfl, rfl, rfl, rfl, ?_⟩
  rw [outstanding_dequeue s h]
  exact Multiset.le_cons_self _ _

theorem quieter_complete {s : Session δ} {c : Completion} (h : c.op ∈ s.pending) : Quieter s (s.complete c) :=
  ⟨rfl, rfl, rfl, rfl, rfl, rfl, rfl, le_of_eq (outstanding_complete s h)⟩

variable {cfg sessionId}

/-- Beside these, a step runs the handler of a successful read or write. -/
theorem step_cases {s t : Session δ} {e : Event δ} (h : step cfg sessionId s e = some t) :
    Quieter s t ∨
    (∃ chunk env, e = .run (.read chunk) env ∧ .read chunk ∈ s.ready ∧
      t = (s.dequeue (.read chunk)).onRead cfg sessionId env (.ok chunk)) ∨
    (∃ env, e = .run .wrote env ∧ .wrote ∈ s.ready ∧ t = (s.dequeue .wrote).onWrite none) := by
  cases e with
  | complete c =>
    obtain ⟨⟨hp, -⟩, rfl⟩ := step_complete h
    exact .inl (quieter_complete hp)
  | stop =>
    obtain rfl := step_stop h
    exact .inl (quieter_stop s)
  | run c env =>
    obtain ⟨hc, rfl⟩ := step_run h
    have hstop := (quieter_dequeue hc).trans (quieter_stop _)
    cases c with
    | read chunk => exact .inr (.inl ⟨chunk, env, rfl, hc, rfl⟩)
    | wrote => exact .inr (.inr ⟨env, rfl, hc, rfl⟩)
    | expired =>
      left
      simp only [handle, onWait, handleTimeout]
      split
      · exact quieter_dequeue hc
      · exact hstop
    | failed op ec =>
      cases op with
      | read => exact .inl hstop
      | write => exact .inl hstop
      | wait => exact .inl (quieter_dequeue hc)

theorem synced_quieter {s t : Session δ} {cur : Bytes} (h : Synced cfg sessionId s cur) (hq : Quieter s t) :
    Synced cfg sessionId t cur := by
  have hr := Multiset.count_le_of_le Op.read hq.outstanding
  have hw := Multiset.count_le_of_le Op.write hq.outstanding
  have hone := h.one
  refine ⟨?_, by omega, ?_, ?_, ?_, ?_⟩
  · rw [hq.received, hq.handled]
    exact h.reads
  · intro hm
    rw [hq.writeBuffer, hq.request, hq.readBuffer]
    exact h.reading (Multiset.mem_of_le hq.outstanding hm)
  · intro hm
    rw [hq.readBuffer, hq.written, hq.writeBuffer]
    exact h.writing (Multiset.mem_of_le hq.outstanding hm)
  · rw [hq.written, hq.handled]
    exact h.replies
  · intro hc
    rw [hq.crashed] at hc
    rw [hq.handled]
    exact h.answered hc

/-! ## The handlers -/

theorem idle_dequeue {s : Session δ} {cur : Bytes} {c : Completion} (h : Synced cfg sessionId s cur) (hc : c ∈ s.ready)
    (hop : c.op ≠ .wait) : Idle (s.dequeue c) := by
  have hone := h.one
  rw [outstanding_dequeue s hc] at hone
  cases hop' : c.op with
  | wait => exact absurd hop' hop
  | read =>
    rw [hop', Multiset.count_cons_self, Multiset.count_cons_of_ne (by decide)] at hone
    exact ⟨Multiset.count_eq_zero.mp (by omega), Multiset.count_eq_zero.mp (by omega)⟩
  | write =>
    rw [hop', Multiset.count_cons_self, Multiset.count_cons_of_ne (by decide)] at hone
    exact ⟨Multiset.count_eq_zero.mp (by omega), Multiset.count_eq_zero.mp (by omega)⟩

theorem Idle.counts {s : Session δ} (h : Idle s) : s.outstanding.count .read + s.outstanding.count .write = 0 := by
  rw [Multiset.count_eq_zero.mpr h.1, Multiset.count_eq_zero.mpr h.2]

theorem idle_receive {s : Session δ} (h : Idle s) (chunk : Bytes) : Idle (s.receive chunk) := by
  unfold Idle receive resetTimer
  rw [outstanding_cancel]
  exact h

/-- While nothing is outstanding, nothing is asked of the buffers. -/
theorem synced_idle {s : Session δ} {cur : Bytes} (hi : Idle s) (hr : Reads s.received.flatten (s.handled.map (·.1)) cur)
    (hrep : s.written = s.handled.filterMap (reply cfg sessionId))
    (hans : s.crashed = false → ∀ h ∈ s.handled, (reply cfg sessionId h).isSome) : Synced cfg sessionId s cur := by
  have := hi.counts
  exact ⟨hr, by omega, fun hm => absurd hm hi.1, fun hm => absurd hm hi.2, hrep, hans⟩

/-- A session that starts to read on what is left of the stream. -/
theorem synced_doRead {s : Session δ} {cur : Bytes} (hi : Idle s) (hr : Reads s.received.flatten (s.handled.map (·.1)) cur)
    (hw : s.writeBuffer = []) (hp : ∀ c, parse s.request (s.readBuffer ++ c) = parse .fresh (cur ++ c))
    (hrep : s.written = s.handled.filterMap (reply cfg sessionId))
    (hans : s.crashed = false → ∀ h ∈ s.handled, (reply cfg sessionId h).isSome) :
    Synced cfg sessionId s.doRead cur := by
  have ho : s.doRead.outstanding = .read ::ₘ s.outstanding := outstanding_initiate .read s
  have hn := hi.counts
  refine ⟨hr, ?_, fun _ => ⟨hw, hp⟩, ?_, hrep, hans⟩
  · rw [ho, Multiset.count_cons_self, Multiset.count_cons_of_ne (by decide)]
    omega
  · intro hm
    rw [ho] at hm
    rcases Multiset.mem_cons.mp hm with hm | hm
    · exact absurd hm (by decide)
    · exact absurd hm hi.2

/-- A session that writes the response on which `_writeBuffer` was built. -/
theorem synced_doWrite {s : Session δ} {cur : Bytes} (hi : Idle s)
    (hr : Reads s.received.flatten (s.handled.map (·.1)) cur) (hb : s.readBuffer = cur)
    (hrep : s.written ++ [s.writeBuffer] = s.handled.filterMap (reply cfg sessionId))
    (hans : s.crashed = false → ∀ h ∈ s.handled, (reply cfg sessionId h).isSome) :
    Synced cfg sessionId s.doWrite cur := by
  have ho : s.doWrite.outstanding = .write ::ₘ s.outstanding :=
    outstanding_initiate .write { s with written := s.written ++ [s.writeBuffer] }
  have hn := hi.counts
  refine ⟨hr, ?_, ?_, fun _ => ⟨hb, by simp [doWrite, initiate]⟩, hrep, hans⟩
  · rw [ho, Multiset.count_cons_self, Multiset.count_cons_of_ne (by decide)]
    omega
  · intro hm
    rw [ho] at hm
    rcases Multiset.mem_cons.mp hm with hm | hm
    · exact absurd hm (by decide)
    · exact absurd hm hi.1

/-- A session that has parsed a request off what is left of the stream and handles it. -/
theorem synced_handleRequest {s : Session δ} {cur : Bytes} (env : Env δ) (hi : Idle s)
    (hr : Reads s.received.flatten (s.handled.map (·.1) ++ [s.request]) cur) (hw : s.writeBuffer = [])
    (hb : s.readBuffer = cur) (hrep : s.written = s.handled.filterMap (reply cfg sessionId))
    (hans : ∀ h ∈ s.handled, (reply cfg sessionId h).isSome) :
    Synced cfg sessionId (s.handleRequest cfg sessionId env) cur := by
  have hr' : Reads s.received.flatten ((s.handled ++ [(s.request, env)]).map (·.1)) cur := by simpa using hr
  rcases handleRequest_cases cfg sessionId env s with ⟨hno, _, he⟩ | ⟨b, hyes, he⟩
  · rw [he]
    refine synced_idle hi hr' ?_ (fun hc => by cases hc)
    show s.written = (s.handled ++ [(s.request, env)]).filterMap (reply cfg sessionId)
    simp [hrep, hno]
  · rw [he, hw, List.nil_append]
    refine synced_doWrite hi hr' hb ?_ ?_
    · show s.written ++ [b] = (s.handled ++ [(s.request, env)]).filterMap (reply cfg sessionId)
      simp [hrep, hyes]
    · intro _ h hm
      rcases List.mem_append.mp hm with hm | hm
      · exact hans h hm
      · rw [List.mem_singleton.mp hm, hyes]
        rfl

theorem synced_onRead {s : Session δ} {cur chunk : Bytes} (env : Env δ) (h : Synced cfg sessionId s cur)
    (hcr : s.crashed = false) (hc : .read chunk ∈ s.ready) :
    ∃ cur', Synced cfg sessionId ((s.dequeue (.read chunk)).onRead cfg sessionId env (.ok chunk)) cur' := by
  have hi := idle_receive (idle_dequeue h hc (by simp [Completion.op])) chunk
  have hm : Op.read ∈ s.outstanding := mem_outstanding s hc
  obtain ⟨hw, hp⟩ := h.reading hm
  have hrd : Reads (s.received ++ [chunk]).flatten (s.handled.map (·.1)) (cur ++ chunk) := by
    simpa using reads_append h.reads chunk
  rcases onRead_cases cfg sessionId env chunk (s.dequeue (.read chunk)) with
    ⟨request, readBuffer, hq, he⟩ | ⟨request, readBuffer, hq, he⟩ | ⟨ex, request, readBuffer, hq, he⟩
  · rw [he]
    refine ⟨readBuffer, synced_handleRequest env hi (reads_concat hrd ?_) hw rfl h.replies (h.answered hcr)⟩
    rw [← hp chunk]
    exact hq
  · rw [he]
    refine ⟨cur ++ chunk, synced_doRead hi hrd hw ?_ h.replies h.answered⟩
    intro c
    show parse request (readBuffer ++ c) = parse .fresh (cur ++ chunk ++ c)
    rw [← parse_resume hq c, List.append_assoc cur, ← hp, ← List.append_assoc]
    rfl
  · rw [he]
    exact ⟨cur ++ chunk, synced_idle hi hrd h.replies (fun hc => by cases hc)⟩

theorem synced_onWrite {s : Session δ} {cur : Bytes} (h : Synced cfg sessionId s cur) (hc : .wrote ∈ s.ready) :
    Synced cfg sessionId ((s.dequeue .wrote).onWrite none) cur := by
  have hi := idle_dequeue h hc (by decide)
  have hm : Op.write ∈ s.outstanding := mem_outstanding s hc
  obtain ⟨hb, -⟩ := h.writing hm
  simp only [onWrite]
  split
  · refine synced_doRead hi h.reads rfl ?_ h.replies h.answered
    intro c
    show parse .fresh (s.readBuffer ++ c) = parse .fresh (cur ++ c)
    rw [hb]
  · have hs : Synced cfg sessionId { s.dequeue .wrote with writeBuffer := [] } cur :=
      synced_idle hi h.reads h.replies h.answered
    exact synced_quieter hs (quieter_stop _)

/-! ## Steps and runs -/

theorem synced_step {s t : Session δ} {e : Event δ} (h : ∃ cur, Synced cfg sessionId s cur)
    (hs : step cfg sessionId s e = some t) : ∃ cur, Synced cfg sessionId t cur := by
  obtain ⟨cur, h⟩ := h
  rcases step_cases hs with hq | ⟨chunk, env, -, hc, rfl⟩ | ⟨env, -, hc, rfl⟩
  · exact ⟨cur, synced_quieter h hq⟩
  · exact synced_onRead env h (step_live hs) hc
  · exact ⟨cur, synced_onWrite h hc⟩

theorem synced_start : Synced cfg sessionId (new : Session δ).start [] := by
  have ho : (new : Session δ).startTimer.outstanding = {.wait} := rfl
  have hi : Idle (new : Session δ).startTimer := by
    unfold Idle
    rw [ho]
    decide
  exact synced_doRead hi (.nil _) rfl (fun _ => rfl) rfl (fun _ h hm => by cases hm)

theorem synced_after {es : List (Event δ)} {s : Session δ} (h : after cfg sessionId es = some s) :
    ∃ cur, Synced cfg sessionId s cur :=
  Machine.run_invariant synced_step es ⟨[], synced_start⟩ h

/-! ## (1) Answers in order -/

/-- The write buffer is left alone while a write is outstanding. -/
theorem writeBuffer_step {s t : Session δ} {cur : Bytes} {e : Event δ} (h : Synced cfg sessionId s cur)
    (hs : step cfg sessionId s e = some t) (hw : .write ∈ s.outstanding) (ht : .write ∈ t.outstanding) :
    t.writeBuffer = s.writeBuffer := by
  rcases step_cases hs with hq | ⟨chunk, env, -, hc, -⟩ | ⟨env, -, hc, rfl⟩
  · exact hq.writeBuffer
  · -- A read would be outstanding beside the write.
    have hone := h.one
    have hr : Op.read ∈ s.outstanding := mem_outstanding s hc
    have := Multiset.count_pos.mpr hr
    have := Multiset.count_pos.mpr hw
    omega
  · have hi := idle_dequeue h hc (by decide)
    have hn : Op.write ∉ ((s.dequeue .wrote).onWrite none).outstanding := by
      simp only [onWrite]
      split
      · rw [doRead, outstanding_initiate, Multiset.mem_cons, not_or]
        exact ⟨by decide, hi.2⟩
      · rw [outstanding_stop]
        exact hi.2
    exact absurd ht hn

theorem map_ok_replies {l : List (HttpRequest × Env δ)} (h : ∀ q ∈ l, (reply cfg sessionId q).isSome) :
    (l.filterMap (reply cfg sessionId)).map .ok = l.map fun q => respond cfg sessionId q.2 q.1 := by
  induction l with
  | nil => rfl
  | cons q l ih =>
    have hq := h q (by simp)
    have hl := ih fun x hx => h x (by simp [hx])
    cases hr : respond cfg sessionId q.2 q.1 with
    | error e => simp [reply, hr, Except.toOption] at hq
    | ok b =>
      have hb : reply cfg sessionId q = some b := by simp [reply, hr, Except.toOption]
      simp only [List.filterMap_cons, hb, List.map_cons, hr, hl]

theorem answers_in_order {es : List (Event δ)} {s : Session δ} (h : after cfg sessionId es = some s)
    (hc : s.crashed = false) :
    s.written.map .ok = s.handled.map (fun q => respond cfg sessionId q.2 q.1) ∧
    (∀ tail, s.handled.map (·.1) <+: requests (s.received.flatten ++ tail)) ∧
    s.outstanding.count .read + s.outstanding.count .write ≤ 1 ∧
    (.read ∈ s.outstanding → s.writeBuffer = []) ∧
    (.write ∈ s.outstanding →
      (s.handled.map fun q => respond cfg sessionId q.2 q.1).getLast? = some (.ok s.writeBuffer) ∧
      ∀ e t, step cfg sessionId s e = some t → .write ∈ t.outstanding → t.writeBuffer = s.writeBuffer) := by
  obtain ⟨cur, hs⟩ := synced_after h
  have hmap : s.written.map .ok = s.handled.map fun q => respond cfg sessionId q.2 q.1 := by
    rw [hs.replies]
    exact map_ok_replies (hs.answered hc)
  refine ⟨hmap, ?_, hs.one, fun hm => (hs.reading hm).1, ?_⟩
  · intro tail
    rw [reads_requests (reads_append hs.reads tail)]
    exact List.prefix_append _ _
  · intro hm
    refine ⟨?_, fun e t ht hm' => writeBuffer_step hs ht hm hm'⟩
    rw [← hmap, List.getLast?_map, (hs.writing hm).2]
    rfl

def keepAliveRequest : Bytes := ascii "GET / H\r\nConnection: keep-alive\r\n\r\n"

/-- A read that ends a request, and the response written. -/
def exchange (chunk : Bytes) : List (Event Unit) :=
  [.complete (.read chunk), .run (.read chunk) ⟨site, ()⟩, .complete .wrote, .run .wrote ⟨site, ()⟩]

theorem exchange_answered : ∃ s, after siteConfig 1 (exchange keepAliveRequest) = some s ∧ s.handled.length = 1 ∧
    s.written.map .ok = s.handled.map fun q => respond siteConfig 1 q.2 q.1 := by
  have hv : (after siteConfig 1 (exchange keepAliveRequest)).map (fun s => (s.crashed, s.handled.length)) =
      some (false, 1) := by decide
  obtain ⟨s, hs, hc⟩ := Option.map_eq_some_iff.mp hv
  simp only [Prod.mk.injEq] at hc
  exact ⟨s, hs, hc.2, (answers_in_order hs hc.1).1⟩

/-! ## (2) One request for each read -/

/-- How many complete requests some reads hold. -/
def available (reads : List Bytes) : Nat := (requests reads.flatten).length

theorem handled_handleRequest (env : Env δ) (s : Session δ) :
    (s.handleRequest cfg sessionId env).handled = s.handled ++ [(s.request, env)] ∧
    (s.handleRequest cfg sessionId env).received = s.received := by
  rcases handleRequest_cases cfg sessionId env s with ⟨-, _, he⟩ | ⟨b, -, he⟩
  · rw [he]
    exact ⟨rfl, rfl⟩
  · rw [he]
    exact ⟨rfl, rfl⟩

theorem onWrite_history (ec : Option ErrorCode) (s : Session δ) :
    (s.onWrite ec).handled = s.handled ∧ (s.onWrite ec).received = s.received := by
  have hstop : ∀ t : Session δ, t.stop.handled = t.handled ∧ t.stop.received = t.received :=
    fun t => ⟨(quieter_stop t).handled, (quieter_stop t).received⟩
  cases ec with
  | some ec => exact hstop s
  | none =>
    simp only [onWrite]
    split
    · exact ⟨rfl, rfl⟩
    · exact hstop { s with writeBuffer := [] }

theorem received_onRead (env : Env δ) (chunk : Bytes) (s : Session δ) :
    (s.onRead cfg sessionId env (.ok chunk)).received = s.received ++ [chunk] := by
  rcases onRead_cases cfg sessionId env chunk s with ⟨q, b, -, he⟩ | ⟨q, b, -, he⟩ | ⟨ex, q, b, -, he⟩
  · rw [he, (handled_handleRequest env _).2]
    rfl
  · rw [he]
    rfl
  · rw [he]
    rfl

/-- The read handler handles one request if the reads so far hold another one. -/
theorem handled_onRead {s : Session δ} {cur chunk : Bytes} (env : Env δ) (h : Synced cfg sessionId s cur)
    (hc : .read chunk ∈ s.ready) :
    ((s.dequeue (.read chunk)).onRead cfg sessionId env (.ok chunk)).handled.length =
      min (s.handled.length + 1) (available (s.received ++ [chunk])) := by
  have hm : Op.read ∈ s.outstanding := mem_outstanding s hc
  have hp := (h.reading hm).2 chunk
  have hrd : Reads (s.received ++ [chunk]).flatten (s.handled.map (·.1)) (cur ++ chunk) := by
    simpa using reads_append h.reads chunk
  have hall : available (s.received ++ [chunk]) = s.handled.length + (requests (cur ++ chunk)).length := by
    simp only [available, reads_requests hrd, List.length_append, List.length_map]
  have hnone : ∀ {o request readBuffer}, parse (s.dequeue (.read chunk)).request ((s.dequeue (.read chunk)).readBuffer ++ chunk) =
      (o, request, readBuffer) → o ≠ .returned true → available (s.received ++ [chunk]) = s.handled.length := by
    intro o request readBuffer hq ho
    have hn : requests (cur ++ chunk) = [] := by
      apply requests_nil
      rw [← hp]
      exact fun h => ho ((congrArg Prod.fst hq).symm.trans h)
    rw [hall, hn]
    rfl
  rcases onRead_cases cfg sessionId env chunk (s.dequeue (.read chunk)) with
    ⟨request, readBuffer, hq, he⟩ | ⟨request, readBuffer, hq, he⟩ | ⟨ex, request, readBuffer, hq, he⟩
  · have hq' : parse .fresh (cur ++ chunk) = (.returned true, request, readBuffer) := by
      rw [← hp]
      exact hq
    rw [he, (handled_handleRequest env _).1, hall, requests_cons hq']
    show (s.handled ++ [(request, env)]).length = _
    simp only [List.length_append, List.length_cons, List.length_nil]
    omega
  · rw [he, hnone hq (by simp)]
    show s.handled.length = _
    omega
  · rw [he, hnone hq (by simp)]
    show s.handled.length = _
    omega

theorem served_after {es : List (Event δ)} {s : Session δ} (h : after cfg sessionId es = some s) :
    Served available s.received s.handled.length := by
  have hstep : ∀ {s : Session δ} {e : Event δ} {t : Session δ},
      ((∃ cur, Synced cfg sessionId s cur) ∧ Served available s.received s.handled.length) →
      step cfg sessionId s e = some t →
      (∃ cur, Synced cfg sessionId t cur) ∧ Served available t.received t.handled.length := by
    intro s e t hs ht
    refine ⟨synced_step hs.1 ht, ?_⟩
    obtain ⟨⟨cur, hc⟩, hv⟩ := hs
    rcases step_cases ht with hq | ⟨chunk, env, -, hm, rfl⟩ | ⟨env, -, hm, rfl⟩
    · rw [hq.received, hq.handled]
      exact hv
    · rw [received_onRead, handled_onRead env hc hm]
      exact .concat hv
    · obtain ⟨hh, hr⟩ := onWrite_history none (s.dequeue .wrote)
      rw [hh, hr]
      exact hv
  exact (Machine.run_invariant hstep es ⟨⟨[], synced_start⟩, .nil⟩ h).2

theorem all_handled_iff_reads_keep_up {es : List (Event δ)} {s : Session δ} (h : after cfg sessionId es = some s)
    {stream : List Bytes} (hwell : ∀ b ∈ stream, ∃ req, parse .fresh b = (.returned true, req, []))
    (hall : s.received.flatten = stream.flatten) :
    s.handled.map (·.1) = stream.map (fun b => (parse .fresh b).2.1) ↔
      ∀ pre suf, s.received = pre ++ suf → stream.length ≤ (requests pre.flatten).length + suf.length := by
  obtain ⟨cur, hs⟩ := synced_after h
  have hreq : s.handled.map (·.1) ++ requests cur = stream.map fun b => (parse .fresh b).2.1 := by
    rw [← reads_requests hs.reads, hall, requests_flatten stream hwell]
  have hlen := congrArg List.length hreq
  simp only [List.length_append, List.length_map] at hlen
  have hle := le_served_iff (by decide) (served_after h) stream.length
  refine Iff.trans ?_ hle
  constructor
  · intro he
    have := congrArg List.length he
    simp only [List.length_map] at this
    omega
  · intro hn
    have hnil : requests cur = [] := List.length_eq_zero_iff.mp (by omega)
    rw [hnil, List.append_nil] at hreq
    exact hreq

theorem keepAliveRequest_complete : ∃ req, parse .fresh keepAliveRequest = (.returned true, req, []) ∧
    wantsKeepAlive req = true :=
  ⟨_, rfl, by decide⟩

theorem two_reads_keep_up : ∃ s, after siteConfig 1 (exchange keepAliveRequest ++ exchange keepAliveRequest) = some s ∧
    s.handled.map (·.1) = [keepAliveRequest, keepAliveRequest].map fun b => (parse .fresh b).2.1 := by
  have hv : (after siteConfig 1 (exchange keepAliveRequest ++ exchange keepAliveRequest)).map (·.received) =
      some [keepAliveRequest, keepAliveRequest] := by decide
  obtain ⟨s, hs, hr⟩ := Option.map_eq_some_iff.mp hv
  obtain ⟨req, hreq, -⟩ := keepAliveRequest_complete
  have hwell : ∀ b ∈ [keepAliveRequest, keepAliveRequest], ∃ req, parse .fresh b = (.returned true, req, []) := by
    simp only [List.forall_mem_cons]
    exact ⟨⟨req, hreq⟩, ⟨req, hreq⟩, by simp⟩
  refine ⟨s, hs, (all_handled_iff_reads_keep_up hs hwell (by rw [hr])).mpr ?_⟩
  intro pre suf he
  rw [hr] at he
  have hsplit : ∀ n ≤ 2, 2 ≤ (requests ([keepAliveRequest, keepAliveRequest].take n).flatten).length + (2 - n) := by decide
  have hpre : pre = [keepAliveRequest, keepAliveRequest].take pre.length := by rw [he]; simp
  have hlen := congrArg List.length he
  simp only [List.length_cons, List.length_nil, List.length_append] at hlen
  have := hsplit pre.length (by omega)
  rw [← hpre] at this
  simp only [List.length_cons, List.length_nil]
  omega

/-- Both requests in one read: the second stays in the buffer while the session, open
    and with nothing to write, waits for the peer. -/
theorem pipelined_request_left :
    (∃ req, parse .fresh keepAliveRequest = (.returned true, req, []) ∧ wantsKeepAlive req = true) ∧
    ∃ s, after siteConfig 1 (exchange (keepAliveRequest ++ keepAliveRequest)) = some s ∧
      s.received.flatten = keepAliveRequest ++ keepAliveRequest ∧ s.closed = false ∧ s.crashed = false ∧
      s.outstanding.count .write = 0 ∧ .read ∈ s.pending ∧ s.handled.length = 1 ∧ s.readBuffer = keepAliveRequest := by
  refine ⟨keepAliveRequest_complete, ?_⟩
  have hv : (after siteConfig 1 (exchange (keepAliveRequest ++ keepAliveRequest))).map (fun s =>
      decide (s.received.flatten = keepAliveRequest ++ keepAliveRequest ∧ s.closed = false ∧ s.crashed = false ∧
        s.outstanding.count .write = 0 ∧ .read ∈ s.pending ∧ s.handled.length = 1 ∧ s.readBuffer = keepAliveRequest)) =
      some true := by decide
  obtain ⟨s, hs, h⟩ := Option.map_eq_some_iff.mp hv
  exact ⟨s, hs, of_decide_eq_true h⟩

/-! ## (3) Waiting for more data -/

theorem more_data_iff_viable :
    (∀ cs : List Bytes,
      ((feed .fresh [] cs).1 = .returned false →
        ∃ t, (parse (feed .fresh [] cs).2.1 ((feed .fresh [] cs).2.2 ++ t)).1 = .returned true) ↔ Viable cs.flatten) ∧
    (∀ (es : List (Event δ)) (s : Session δ), after cfg sessionId es = some s → .read ∈ s.outstanding →
      ∃ cur, Reads s.received.flatten (s.handled.map (·.1)) cur ∧
        (((parse s.request s.readBuffer).1 = .returned false →
          ∃ t, (parse s.request (s.readBuffer ++ t)).1 = .returned true) ↔ Viable cur)) := by
  constructor
  · intro cs
    rw [← extendable_iff_viable, feed_of_waiting drain_fresh_nil cs, List.nil_append]
    apply imp_congr_right
    intro hf
    have hp : parse .fresh cs.flatten = (.returned false, (parse .fresh cs.flatten).2) := Prod.ext hf rfl
    apply exists_congr
    intro t
    rw [parse_resume hp t]
    rfl
  · intro es s h hm
    obtain ⟨cur, hs⟩ := synced_after h
    obtain ⟨-, hp⟩ := hs.reading hm
    refine ⟨cur, hs.reads, ?_⟩
    have h0 : parse s.request s.readBuffer = parse .fresh cur := by simpa using hp []
    rw [h0, ← extendable_iff_viable]
    apply imp_congr_right
    intro _
    apply exists_congr
    intro t
    rw [hp t]

def malformed : Bytes := ascii "INVALID /test HTTP/1.1\r\n\r\n"

/-- The line is complete and no method is called `INVALID`: `Parse` returns false now and
    whatever follows, and a session reads on. -/
theorem malformed_line_waits_forever :
    (feed .fresh [] [malformed]).1 = .returned false ∧
    (∀ t, (parse (feed .fresh [] [malformed]).2.1 ((feed .fresh [] [malformed]).2.2 ++ t)).1 = .returned false) ∧
    (after siteConfig 1 [.complete (.read malformed), .run (.read malformed) ⟨site, ()⟩]).map
      (fun s => decide (s.closed = false ∧ .read ∈ s.pending ∧ s.readBuffer = malformed)) = some true := by
  have hcut : cut crlf malformed = some (ascii "INVALID /test HTTP/1.1", crlf) := by decide
  have hwait : ∀ t, parse .fresh (malformed ++ t) = (.returned false, .fresh, malformed ++ t) := by
    intro t
    apply parse_of_wait
    apply Reader.drain_wait
    simp only [parseRound, HttpRequest.fresh, cut_append crlf_ne_nil hcut]
    rfl
  have hnow : feed .fresh [] [malformed] = (.returned false, .fresh, malformed) := by
    rw [feed_of_waiting drain_fresh_nil]
    simpa using hwait []
  refine ⟨by rw [hnow], ?_, by decide⟩
  intro t
  rw [hnow]
  exact congrArg Prod.fst (hwait t)

end Session

end BreWebServer.Server
