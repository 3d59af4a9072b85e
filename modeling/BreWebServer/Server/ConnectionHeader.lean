/-
  BreWebServer.Server.ConnectionHeader — what the Connection header says and what the
  session does.

  `HandleRequest` replaces its response on most branches and sets the flag again before
  `Build`, but for the branch on which `canonical` refuses the file's path. A response
  says `keep-alive` to a client that asked for it unless its request took that branch
  (`keepAlive_answer`), and the session reads on whenever the client asked.

  So in every run, what a response says is what the session does after it, exactly when
  keep-alive was not asked for or the path resolves (`connection_header_iff`,
  `missing_file_says_close`).
-/

import BreWebServer.Http.Decoding
import BreWebServer.Server.Framing
import BreWebServer.Server.Shutdown

namespace BreWebServer.Server

open BreWebServer.Lib BreWebServer.Cpp BreWebServer.Http BreWebServer.Service

variable {δ : Type} (cfg : Config δ)

/-! ## What a response says -/

/-- The first message of these bytes has a Connection header with this value. -/
def carries (value bytes : Bytes) : Bool :=
  (Message.readMessage bytes).any fun r => r.1.headers.contains (ascii "Connection", value)

def carriesKeepAlive (bytes : Bytes) : Bool := carries (ascii "keep-alive") bytes

def carriesClose (bytes : Bytes) : Bool := carries (ascii "close") bytes

theorem contentTypes_plain : ∀ t ∈ contentTypes, 13 ∉ t ∧ 10 ∉ t ∧ t.head? ≠ some sp := by decide

theorem sendable_of_typed {r : HttpResponse} (h : Typed r) : r.Sendable := by
  obtain ⟨t, ht, hh⟩ := h
  have hg : r.given = [(ascii "Content-Type", t)] := by
    rw [HttpResponse.given, hh]
    rfl
  refine ⟨?_, ?_, ?_⟩
  · rw [hg]
    simp only [List.forall_mem_singleton]
    decide
  · rw [hg]
    simp only [List.forall_mem_singleton]
    decide
  · rw [hg]
    simp only [List.forall_mem_singleton]
    exact contentTypes_plain t ht

theorem mem_fields_connection {r : HttpResponse} (h : r.Sendable) {value : Bytes} :
    (ascii "Connection", value) ∈ r.fields ↔ value = if r.keepAlive then ascii "keep-alive" else ascii "close" := by
  have hne : ascii "Connection" ≠ contentLengthKey ∧ ascii "Connection" ≠ ascii "Keep-Alive" := by decide
  have hgiven : (ascii "Connection", value) ∉ r.given := fun hm => h.foreign _ hm (ascii "Connection") (by decide) rfl
  have hlen : (ascii "Connection", value) ≠ r.lengthField := fun he => hne.1 (congrArg Prod.fst he)
  rw [HttpResponse.fields, List.mem_append, List.mem_append, List.mem_singleton]
  simp only [hgiven, hlen, false_or, or_false]
  cases r.keepAlive with
  | true => simp [HttpResponse.connectionFields, hne.2]
  | false => simp [HttpResponse.connectionFields]

theorem carries_encode {r : HttpResponse} (h : r.Sendable) (it : HttpResponse.MapOrder) (value : Bytes) :
    carries value (HttpResponse.encode it r) = true ↔ value = if r.keepAlive then ascii "keep-alive" else ascii "close" := by
  have hr := Message.readMessage_of_spelled (HttpResponse.spelled_encode h it) []
  rw [List.append_nil] at hr
  rw [carries, hr, Option.any_some, List.contains_iff_mem, ← mem_fields_connection h]
  exact HttpResponse.mem_order_fields h it

/-! ## The flag of an answer -/

/-- A static path that `canonical` refuses. -/
def Unresolved (env : Env δ) (req : HttpRequest) : Prop :=
  ¬ apiPrefix <+: req.path ∧ canonical env.fs (joinPath cfg.resourceDir ((routePath req).drop 1)) = none

instance (env : Env δ) (req : HttpRequest) : Decidable (Unresolved cfg env req) := inferInstanceAs (Decidable (_ ∧ _))

variable {cfg} in
theorem keepAlive_answer {sessionId : Nat} {env : Env δ} {req : HttpRequest} {r : HttpResponse} {db : δ}
    (h : answer cfg sessionId env req = .ok (r, db)) :
    r.keepAlive = true ↔ wantsKeepAlive req = true ∧ ¬ Unresolved cfg env req := by
  unfold Unresolved
  by_cases hapi : apiPrefix <+: req.path
  · have hapi' := (api_routePath req).mpr hapi
    simp only [answer, hapi', if_true] at h
    cases ha : handleApi cfg sessionId env.db req (routePath req) with
    | error e =>
      rw [ha] at h
      cases h
    | ok p =>
      rw [ha] at h
      cases h
      simp [hapi, HttpResponse.setKeepAlive]
  · have hapi' : ¬ apiPrefix <+: routePath req := fun h => hapi ((api_routePath req).mp h)
    have hthrows : ¬ Throws cfg env req := (answer_ok_iff cfg sessionId env req).mp ⟨_, h⟩
    simp only [Throws, hapi, if_false, not_or] at hthrows
    obtain ⟨root, hroot⟩ := Option.ne_none_iff_exists'.mp hthrows.2
    simp only [answer, hapi', if_false, serveStatic_eq cfg hroot _ fun hp => hthrows.1 (routePath_ne_nil.mp hp),
      Except.map] at h
    cases hc : canonical env.fs (joinPath cfg.resourceDir ((routePath req).drop 1)) with
    | none =>
      rw [hc] at h
      cases h
      simp [hapi, HttpResponse.makeErrorResponse, HttpResponse.setBody, HttpResponse.setContentType,
        HttpResponse.addHeader, HttpResponse.setStatus, HttpResponse.new]
    | some q =>
      rw [hc] at h
      cases h
      simp [hapi, HttpResponse.setKeepAlive]

/-! ## The flag of a session -/

namespace Session

variable {cfg} {sessionId : Nat}

/-- While a response is being written, the session's flag is that of its request. -/
def Flagged (s : Session δ) : Prop :=
  .write ∈ s.outstanding → s.handled.getLast?.map (fun h => wantsKeepAlive h.1) = some s.keepAlive

theorem keepAlive_stop (s : Session δ) : s.stop.keepAlive = s.keepAlive := by
  unfold stop
  split <;> rfl

theorem handled_stop (s : Session δ) : s.stop.handled = s.handled := (quieter_stop s).handled

/-- Only the handler of a successful read sets the flag. -/
theorem keepAlive_step {s t : Session δ} {e : Event δ} (h : step cfg sessionId s e = some t)
    (he : ∀ chunk env, e ≠ .run (.read chunk) env) : t.keepAlive = s.keepAlive ∧ t.handled = s.handled := by
  have hstop : ∀ u : Session δ, u.stop.keepAlive = u.keepAlive ∧ u.stop.handled = u.handled :=
    fun u => ⟨keepAlive_stop u, handled_stop u⟩
  cases e with
  | complete c =>
    obtain ⟨-, rfl⟩ := step_complete h
    exact ⟨rfl, rfl⟩
  | stop =>
    obtain rfl := step_stop h
    exact hstop s
  | run c env =>
    obtain ⟨-, rfl⟩ := step_run h
    cases c with
    | read chunk => exact absurd rfl (he chunk env)
    | wrote =>
      rcases onWrite_cases (s.dequeue .wrote) with ⟨-, hw⟩ | hw
      · rw [handle, hw]
        exact ⟨rfl, rfl⟩
      · rw [handle, hw]
        exact hstop _
    | expired =>
      simp only [handle, onWait, handleTimeout]
      split
      · exact ⟨rfl, rfl⟩
      · exact hstop _
    | failed op ec =>
      cases op with
      | read => exact hstop _
      | write => exact hstop _
      | wait => exact ⟨rfl, rfl⟩

theorem flagged_onRead {s : Session δ} {chunk : Bytes} (env : Env δ) (hi : Idle s) :
    Flagged (s.onRead cfg sessionId env (.ok chunk)) := by
  have hr := idle_receive hi chunk
  rcases onRead_cases cfg sessionId env chunk s with ⟨q, b, -, he⟩ | ⟨q, b, -, he⟩ | ⟨ex, q, b, -, he⟩
  · rw [he]
    rcases handleRequest_cases cfg sessionId env { s.receive chunk with request := q, readBuffer := b } with
      ⟨-, _, hh⟩ | ⟨bytes, -, hh⟩
    · rw [hh]
      intro hm
      exact absurd hm hr.2
    · rw [hh]
      intro _
      simp [doWrite, initiate]
  · rw [he]
    intro hm
    rw [doRead, outstanding_initiate, Multiset.mem_cons] at hm
    rcases hm with hm | hm
    · cases hm
    · exact absurd hm hr.2
  · rw [he]
    intro hm
    exact absurd hm hr.2

theorem flagged_step {s t : Session δ} {e : Event δ} {cur : Bytes} (hsync : Synced cfg sessionId s cur) (h : Flagged s)
    (hs : step cfg sessionId s e = some t) : Flagged t := by
  have hkeep : (∀ chunk env, e ≠ .run (.read chunk) env) → t.outstanding.count .write ≤ s.outstanding.count .write →
      Flagged t := by
    intro hne hle hm
    obtain ⟨hk, hh⟩ := keepAlive_step hs hne
    rw [hk, hh]
    exact h (Multiset.count_pos.mp (lt_of_lt_of_le (Multiset.count_pos.mpr hm) hle))
  rcases step_cases hs with hq | ⟨chunk, env, -, hc, rfl⟩ | ⟨env, rfl, hc, rfl⟩
  · by_cases hread : ∃ chunk env, e = .run (.read chunk) env
    · obtain ⟨chunk, env, rfl⟩ := hread
      obtain ⟨hc, rfl⟩ := step_run hs
      exact flagged_onRead env (idle_dequeue hsync hc (by simp [Completion.op]))
    · exact hkeep (fun chunk env he => hread ⟨chunk, env, he⟩) (Multiset.count_le_of_le _ hq.outstanding)
  · exact flagged_onRead env (idle_dequeue hsync hc (by simp [Completion.op]))
  · apply hkeep (by simp)
    have hi := idle_dequeue hsync hc (by decide)
    rcases onWrite_cases (s.dequeue .wrote) with ⟨-, hw⟩ | hw
    · have hn : Op.write ∉ ((s.dequeue .wrote).onWrite none).outstanding := by
        rw [hw, doRead, outstanding_initiate, Multiset.mem_cons, not_or]
        exact ⟨by decide, hi.2⟩
      rw [Multiset.count_eq_zero.mpr hn]
      exact Nat.zero_le _
    · have hn : Op.write ∉ ((s.dequeue .wrote).onWrite none).outstanding := by
        rw [hw, outstanding_stop]
        exact hi.2
      rw [Multiset.count_eq_zero.mpr hn]
      exact Nat.zero_le _

theorem flagged_after {es : List (Event δ)} {s : Session δ} (h : after cfg sessionId es = some s) : Flagged s := by
  have hstart : Flagged (new : Session δ).start := by
    intro hm
    have ho : (new : Session δ).startTimer.outstanding = {.wait} := rfl
    rw [start, doRead, outstanding_initiate, ho] at hm
    exact absurd hm (by decide)
  have hstep : ∀ {s : Session δ} {e : Event δ} {t : Session δ}, ((∃ cur, Synced cfg sessionId s cur) ∧ Flagged s) →
      step cfg sessionId s e = some t → (∃ cur, Synced cfg sessionId t cur) ∧ Flagged t := by
    intro s e t hs ht
    obtain ⟨⟨cur, hc⟩, hf⟩ := hs
    exact ⟨synced_step ⟨cur, hc⟩ ht, flagged_step hc hf ht⟩
  exact (Machine.run_invariant hstep es ⟨⟨[], synced_start⟩, hstart⟩ h).2

/-! ## What the session does -/

/-- A step that starts a read. -/
def ReadsOn (s t : Session δ) : Prop := t.started = s.started ++ [.read]

instance (s t : Session δ) : Decidable (ReadsOn s t) := inferInstanceAs (Decidable (_ = _))

/-- What the bytes of a response say of what the session does after them. -/
def TellsTruth (bytes : Bytes) (s t : Session δ) : Prop :=
  (carriesKeepAlive bytes = true ↔ ReadsOn s t) ∧ (carriesClose bytes = true ↔ t.closed = true)

/-- After a response is written, an open session reads on or stops by its flag. -/
theorem wrote_follows_flag {s t : Session δ} {env : Env δ} (hopen : s.closed = false)
    (hs : step cfg sessionId s (.run .wrote env) = some t) :
    (ReadsOn s t ↔ s.keepAlive = true) ∧ (t.closed = true ↔ s.keepAlive = false) := by
  obtain ⟨-, rfl⟩ := step_run hs
  have hd : (s.dequeue .wrote).closed = false := hopen
  cases hk : s.keepAlive with
  | true =>
    have he : (s.dequeue .wrote).onWrite none = { s.dequeue .wrote with writeBuffer := [], request := .fresh }.doRead := by
      have hk' : (s.dequeue .wrote).keepAlive = true := hk
      simp only [onWrite, hk', hd, Bool.false_eq_true, not_false_eq_true, and_self, if_true]
      rfl
    rw [handle, he]
    exact ⟨iff_of_true rfl rfl, iff_of_false (by simpa [doRead, initiate] using hd) (by simp)⟩
  | false =>
    have he : (s.dequeue .wrote).onWrite none = { s.dequeue .wrote with writeBuffer := [] }.stop := by
      have hk' : (s.dequeue .wrote).keepAlive = false := hk
      simp only [onWrite, hk', Bool.false_eq_true, false_and, if_false]
    have hst : { s.dequeue .wrote with writeBuffer := [] }.stop.started = s.started := by
      unfold stop
      split <;> rfl
    rw [handle, he]
    refine ⟨iff_of_false ?_ (by simp), iff_of_true (closed_stop _) rfl⟩
    intro hr
    have hlen := congrArg List.length (hst.symm.trans hr)
    simp only [List.length_append, List.length_singleton] at hlen
    omega

theorem answer_of_respond {env : Env δ} {req : HttpRequest} {bytes : Bytes} (h : respond cfg sessionId env req = .ok bytes) :
    ∃ r db, answer cfg sessionId env req = .ok (r, db) ∧ r.encode cfg.order = bytes := by
  rw [respond] at h
  cases ha : answer cfg sessionId env req with
  | error e =>
    rw [ha] at h
    cases h
  | ok p =>
    rw [ha] at h
    exact ⟨p.1, p.2, rfl, Except.ok.inj h⟩

theorem connection_header_iff {es : List (Event δ)} {s t : Session δ} {env : Env δ} (h : after cfg sessionId es = some s)
    (hopen : s.closed = false) (hs : step cfg sessionId s (.run .wrote env) = some t) :
    ∃ q bytes, s.handled.getLast? = some q ∧ s.written.getLast? = some bytes ∧
      respond cfg sessionId q.2 q.1 = .ok bytes ∧
      (TellsTruth bytes s t ↔ ¬ (wantsKeepAlive q.1 = true ∧ Unresolved cfg q.2 q.1)) := by
  obtain ⟨hc, -⟩ := step_run hs
  have hw : Op.write ∈ s.outstanding := mem_outstanding s hc
  obtain ⟨cur, hsync⟩ := synced_after h
  obtain ⟨q, hq, hflag⟩ := Option.map_eq_some_iff.mp (flagged_after h hw)
  have hlast := ((answers_in_order h (step_live hs)).2.2.2.2 hw).1
  rw [List.getLast?_map, hq, Option.map_some, Option.some.injEq] at hlast
  obtain ⟨r, db, ha, hb⟩ := answer_of_respond hlast
  have hsend := sendable_of_typed (typed_answer cfg ha)
  have hka := keepAlive_answer ha
  obtain ⟨hread, hstop⟩ := wrote_follows_flag hopen hs
  have hne : ascii "keep-alive" ≠ ascii "close" := by decide
  refine ⟨q, s.writeBuffer, hq, (hsync.writing hw).2, hlast, ?_⟩
  have hkeep : carriesKeepAlive s.writeBuffer = true ↔ r.keepAlive = true := by
    rw [← hb, carriesKeepAlive, carries_encode hsend]
    cases r.keepAlive with
    | true => simp
    | false => simpa using hne
  have hclose : carriesClose s.writeBuffer = true ↔ r.keepAlive = false := by
    rw [← hb, carriesClose, carries_encode hsend]
    cases r.keepAlive with
    | true => simpa using hne.symm
    | false => simp
  rw [TellsTruth, hkeep, hclose, hread, hstop, ← hflag]
  cases hr : r.keepAlive with
  | true =>
    obtain ⟨hwant, hres⟩ := hka.mp hr
    simp [hwant, hres]
  | false =>
    have hno : ¬ (wantsKeepAlive q.1 = true ∧ ¬ Unresolved cfg q.2 q.1) := fun hx => by
      rw [hka.mpr hx] at hr
      cases hr
    cases hwant : wantsKeepAlive q.1 with
    | true =>
      have hun : Unresolved cfg q.2 q.1 := Classical.byContradiction fun hx => hno ⟨hwant, hx⟩
      simp [hun]
    | false => simp

/-- A resource directory without the file asked for, by a client that wants to go on. -/
def missingRequest : Bytes := ascii "GET /missing H\r\nConnection: keep-alive\r\n\r\n"

def missingRun : List (Event Unit) :=
  [.complete (.read missingRequest), .run (.read missingRequest) ⟨site, ()⟩, .complete .wrote]

/-- The response says `close`, the session stays open and reads on. -/
theorem missing_file_says_close : ∃ s t bytes, after siteConfig 1 missingRun = some s ∧ s.closed = false ∧
    step siteConfig 1 s (.run .wrote ⟨site, ()⟩) = some t ∧ s.written.getLast? = some bytes ∧
    carriesClose bytes = true ∧ carriesKeepAlive bytes = false ∧ ReadsOn s t ∧ t.closed = false := by
  have hv : (after siteConfig 1 missingRun).bind (fun s =>
      (step siteConfig 1 s (.run .wrote ⟨site, ()⟩)).bind fun t => s.written.getLast?.map fun bytes =>
        decide (s.closed = false ∧ carriesClose bytes = true ∧ carriesKeepAlive bytes = false ∧ ReadsOn s t ∧
          t.closed = false)) = some true := by decide +kernel
  obtain ⟨s, hs, hv⟩ := Option.bind_eq_some_iff.mp hv
  obtain ⟨t, ht, hv⟩ := Option.bind_eq_some_iff.mp hv
  obtain ⟨bytes, hb, hd⟩ := Option.map_eq_some_iff.mp hv
  obtain ⟨hopen, hclose, hkeep, hread, hclosed⟩ := of_decide_eq_true hd
  exact ⟨s, t, bytes, hs, hopen, ht, hb, hclose, hkeep, hread, hclosed⟩

/-- A file that is there is answered with what happens. -/
theorem found_file_tells_truth : ∃ s t q bytes, after siteConfig 1
      [.complete (.read keepAliveRequest), .run (.read keepAliveRequest) ⟨site, ()⟩, .complete .wrote] = some s ∧
    step siteConfig 1 s (.run .wrote ⟨site, ()⟩) = some t ∧ s.handled.getLast? = some q ∧
    s.written.getLast? = some bytes ∧
    (TellsTruth bytes s t ↔ ¬ (wantsKeepAlive q.1 = true ∧ Unresolved siteConfig q.2 q.1)) := by
  have hv : (after siteConfig 1
      [.complete (.read keepAliveRequest), .run (.read keepAliveRequest) ⟨site, ()⟩, .complete .wrote]).bind (fun s =>
        (step siteConfig 1 s (.run .wrote ⟨site, ()⟩)).map fun _ => s.closed) = some false := by decide
  obtain ⟨s, hs, hv⟩ := Option.bind_eq_some_iff.mp hv
  obtain ⟨t, ht, hopen⟩ := Option.map_eq_some_iff.mp hv
  obtain ⟨q, bytes, hq, hb, -, hiff⟩ := connection_header_iff hs hopen ht
  exact ⟨s, t, q, bytes, hs, ht, hq, hb, hiff⟩

end Session

end BreWebServer.Server
