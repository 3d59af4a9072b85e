/-
  BreWebServer.Server.Benchmark — the benchmark's client against a session.

  `SendAndRecv` sends a request, waits in `recv` for at most 4095 bytes and is content with
  any: what is left of the response is there when the next request is sent. Two byte pipes
  connect client and session; what they hold comes out in pieces of any size. A blocking
  `send` is taken to send all.
-/

import BreWebServer.Server.Socket

namespace BreWebServer.Server

open BreWebServer.Lib BreWebServer.Cpp BreWebServer.Http

/-! ## The client and the session -/

structure Benchmark (δ : Type) where
  /-- In `recv`. -/
  waiting : Bool
  /-- `SendAndRecv` has returned false. -/
  failed : Bool
  sent : List Bytes
  /-- What each `recv` gave. -/
  got : List Bytes
  /-- On the way to the session. -/
  inbound : Bytes
  /-- Handed to `async_write` and not sent. -/
  unsent : Bytes
  /-- On the way to the client. -/
  outbound : Bytes
  session : Session δ

namespace Benchmark

variable {δ : Type}

def buildRequest (keepAlive : Bool) : Bytes :=
  ascii "GET /index.html HTTP/1.1\r\n" ++ ascii "Host: 127.0.0.1\r\n" ++
    (if keepAlive then ascii "Connection: keep-alive\r\n" else ascii "Connection: close\r\n") ++ ascii "\r\n"

def new : Benchmark δ := ⟨false, false, [], [], [], [], [], Session.new.start⟩

inductive Event (δ : Type) where
  | send (request : Bytes)
  | recv (n : Nat)
  /-- `recv` finds the connection closed or reset. -/
  | eof
  /-- The operating system sends `n` bytes of the response. -/
  | transfer (n : Nat)
  | session (e : Session.Event δ)

/-- A read gives what has arrived, and a write is complete when all is sent. -/
def allows (s : Benchmark δ) : Session.Event δ → Bool
  | .complete (.read chunk) => s.inbound.take chunk.length == chunk
  | .complete .wrote => s.unsent == []
  | _ => true

variable (cfg : Config δ) (sessionId : Nat)

def step (s : Benchmark δ) : Event δ → Option (Benchmark δ)
  | .send request =>
    if s.failed = false ∧ s.waiting = false then
      some { s with waiting := true, sent := s.sent ++ [request], inbound := s.inbound ++ request }
    else none
  | .recv n =>
    if s.waiting = true ∧ 0 < n ∧ n ≤ 4095 ∧ n ≤ s.outbound.length then
      some { s with waiting := false, got := s.got ++ [s.outbound.take n], outbound := s.outbound.drop n }
    else none
  | .eof =>
    if s.waiting = true ∧ s.session.closed = true then
      some { s with waiting := false, failed := true }
    else none
  | .transfer n =>
    if s.session.crashed = false ∧ .write ∈ s.session.pending ∧ 0 < n ∧ n ≤ s.unsent.length then
      some { s with unsent := s.unsent.drop n, outbound := s.outbound ++ s.unsent.take n }
    else none
  | .session e =>
    if s.allows e then
      (s.session.step cfg sessionId e).map fun session =>
        { s with
          session
          inbound := s.inbound.drop e.arriving.length
          unsent := s.unsent ++ (session.written.drop s.session.written.length).flatten }
    else none

def after (es : List (Event δ)) : Option (Benchmark δ) := Machine.run (step cfg sessionId) new es

variable {cfg sessionId}

/-! ## What the pipes hold -/

variable (cfg sessionId) in
structure Wired (s : Benchmark δ) : Prop where
  reach : ∃ es, Session.after cfg sessionId es = some s.session
  whole : ∀ request ∈ s.sent, OneRequest request
  /-- Nothing sent is lost on the way in. -/
  calm : (∀ chunk, .read chunk ∉ s.session.successes) → s.session.received.flatten ++ s.inbound = s.sent.flatten
  arrived : ∀ chunk, .read chunk ∈ s.session.successes →
    chunk ≠ [] ∧ s.session.received.flatten ++ (chunk ++ s.inbound) = s.sent.flatten
  written : .wrote ∈ s.session.successes → s.unsent = []
  writing : s.unsent ≠ [] → s.session.crashed = false → s.session.closed = false → .write ∈ s.session.outstanding
  /-- While the client waits, there is something for it or for the session. -/
  busy : s.waiting = true → s.session.crashed = false →
    s.inbound ≠ [] ∨ (∃ chunk, .read chunk ∈ s.session.successes) ∨ s.unsent ≠ [] ∨ s.outbound ≠ []
  /-- Nor on the way out. -/
  order : s.got.flatten ++ (s.outbound ++ s.unsent) = s.session.written.flatten

theorem take_arriving {s : Benchmark δ} {e : Session.Event δ} (h : s.allows e = true) :
    s.inbound.take e.arriving.length = e.arriving := by
  unfold Session.Event.arriving
  split
  · simpa [allows] using h
  · rfl

theorem arriving_other {e : Session.Event δ} (h : ∀ chunk, e ≠ .complete (.read chunk)) : e.arriving = [] := by
  unfold Session.Event.arriving
  split
  · rename_i chunk
    exact absurd rfl (h chunk)
  · rfl

theorem wired_new : Wired cfg sessionId (new : Benchmark δ) := by
  have hnone : (Session.new.start : Session δ).successes = 0 := rfl
  refine ⟨⟨[], rfl⟩, ?_, fun _ => rfl, ?_, fun _ => rfl, ?_, ?_, rfl⟩
  · intro request hm
    cases hm
  · intro chunk hm
    exact absurd hm (Multiset.notMem_zero _)
  · intro hne
    exact absurd rfl hne
  · intro hw
    cases hw

/-- The steps of the client and of the operating system. -/
theorem wired_step_client {s t : Benchmark δ} {e : Event δ} (h : Wired cfg sessionId s) (he : ∀ e', e ≠ .session e')
    (hsend : ∀ request, e = .send request → OneRequest request) (hs : step cfg sessionId s e = some t) :
    Wired cfg sessionId t := by
  cases e with
  | session e' => exact absurd rfl (he e')
  | send request =>
    obtain ⟨-, ht⟩ := Option.ite_none_right_eq_some.mp hs
    obtain rfl := Option.some.inj ht
    have hwhole := hsend request rfl
    refine ⟨h.reach, ?_, ?_, ?_, h.written, h.writing, ?_, h.order⟩
    · intro r hr
      rcases List.mem_append.mp hr with hr | hr
      · exact h.whole r hr
      · rw [List.mem_singleton.mp hr]
        exact hwhole
    · intro hcalm
      simp [← h.calm hcalm]
    · intro chunk hm
      obtain ⟨hne, heq⟩ := h.arrived chunk hm
      refine ⟨hne, ?_⟩
      simp [← heq]
    · intro _ _
      exact .inl fun hnil => hwhole.ne_nil (List.append_eq_nil_iff.mp hnil).2
  | recv n =>
    obtain ⟨-, ht⟩ := Option.ite_none_right_eq_some.mp hs
    obtain rfl := Option.some.inj ht
    refine ⟨h.reach, h.whole, h.calm, h.arrived, h.written, h.writing, fun hw => ?_, ?_⟩
    · cases hw
    · have hcut := List.take_append_drop n s.outbound
      rw [← h.order]
      simp only [List.flatten_append, List.flatten_singleton, List.append_assoc]
      rw [← List.append_assoc (s.outbound.take n), hcut]
  | eof =>
    obtain ⟨-, ht⟩ := Option.ite_none_right_eq_some.mp hs
    obtain rfl := Option.some.inj ht
    refine ⟨h.reach, h.whole, h.calm, h.arrived, h.written, h.writing, fun hw => ?_, h.order⟩
    cases hw
  | transfer n =>
    obtain ⟨⟨hlive, hpending, hpos, hle⟩, ht⟩ := Option.ite_none_right_eq_some.mp hs
    obtain rfl := Option.some.inj ht
    refine ⟨h.reach, h.whole, h.calm, h.arrived, ?_, ?_, ?_, ?_⟩
    · intro hm
      show s.unsent.drop n = []
      rw [h.written hm, List.drop_nil]
    · intro _ _ _
      exact Multiset.mem_add.mpr (.inl hpending)
    · intro _ _
      right
      right
      right
      intro hnil
      have := congrArg List.length (List.append_eq_nil_iff.mp hnil).2
      simp only [List.length_take, List.length_nil] at this
      omega
    · have hcut := List.take_append_drop n s.unsent
      rw [← h.order]
      simp only [List.append_assoc]
      rw [hcut]

/-- What a read that ends no request leaves is not all that was sent. -/
theorem inbound_of_unread {s : Benchmark δ} {received cur chunk : Bytes} {reqs : List HttpRequest}
    (hw : ∀ request ∈ s.sent, OneRequest request)
    (hsent : received ++ s.inbound = s.sent.flatten) (hr : Reads received reqs (cur ++ chunk)) (hne : chunk ≠ [])
    (hp : (parse .fresh (cur ++ chunk)).1 = .returned false) : s.inbound ≠ [] := by
  intro hnil
  rw [hnil, List.append_nil] at hsent
  obtain ⟨k, -, hrest⟩ := reads_each hr hw hsent.symm
  cases hdrop : s.sent.drop k with
  | nil =>
    rw [hdrop] at hrest
    exact hne (List.append_eq_nil_iff.mp hrest).2
  | cons request later =>
    have hfirst := hw request (List.mem_of_mem_drop (i := k) (by rw [hdrop]; simp))
    rw [hrest, hdrop, List.flatten_cons, hfirst.append] at hp
    cases hp

/-- A step of the session that reads and writes no bytes. -/
theorem wired_sameBytes {s : Benchmark δ} {session : Session δ} {inbound : Bytes} (h : Wired cfg sessionId s)
    (hlive : s.session.crashed = false) (hreach : ∃ es, Session.after cfg sessionId es = some session)
    (hsame : Session.SameBytes s.session session)
    (hcalm : (∀ chunk, .read chunk ∉ session.successes) → s.session.received.flatten ++ inbound = s.sent.flatten)
    (harrived : ∀ chunk, .read chunk ∈ session.successes →
      chunk ≠ [] ∧ s.session.received.flatten ++ (chunk ++ inbound) = s.sent.flatten)
    (hwritten : .wrote ∈ session.successes → s.unsent = [])
    (hbusy : s.waiting = true →
      inbound ≠ [] ∨ (∃ chunk, .read chunk ∈ session.successes) ∨ s.unsent ≠ [] ∨ s.outbound ≠ []) :
    Wired cfg sessionId { s with session, inbound } := by
  refine ⟨hreach, h.whole, ?_, ?_, hwritten, ?_, fun hw _ => hbusy hw, ?_⟩
  · show _ → session.received.flatten ++ inbound = _
    rw [hsame.received]
    exact hcalm
  · show ∀ chunk, _ → chunk ≠ [] ∧ session.received.flatten ++ (chunk ++ inbound) = _
    rw [hsame.received]
    exact harrived
  · intro hunsent _ hopen
    obtain ⟨hopen, hkept⟩ := hsame.held hopen
    exact hkept (h.writing hunsent hlive hopen)
  · show _ = session.written.flatten
    rw [hsame.written]
    exact h.order

theorem wired_step_session {s t : Benchmark δ} {e : Session.Event δ} (h : Wired cfg sessionId s)
    (hs : step cfg sessionId s (.session e) = some t) : Wired cfg sessionId t := by
  obtain ⟨hallows, hs⟩ := Option.ite_none_right_eq_some.mp hs
  obtain ⟨session, hsession, rfl⟩ := Option.map_eq_some_iff.mp hs
  clear hs
  obtain ⟨es, hes⟩ := h.reach
  obtain ⟨cur, hsync⟩ := Session.synced_after hes
  have hlive := Session.step_live hsession
  have hreach : ∃ es, Session.after cfg sessionId es = some session :=
    ⟨es ++ [e], Machine.run_concat_some.mpr ⟨s.session, hes, hsession⟩⟩
  have hunwritten : session.written = s.session.written →
      s.unsent ++ (session.written.drop s.session.written.length).flatten = s.unsent := by
    intro hw
    rw [hw, List.drop_length, List.flatten_nil, List.append_nil]
  cases Session.step_onSocket hsync hsession with
  | arrived chunk hne hnone hready hsame =>
    have htake : s.inbound.take chunk.length = chunk := take_arriving hallows
    have hcut : chunk ++ s.inbound.drop chunk.length = s.inbound := by
      have := List.take_append_drop chunk.length s.inbound
      rwa [htake] at this
    have hcalm := h.calm (by simp [hnone])
    rw [hunwritten hsame.written]
    refine wired_sameBytes h hlive hreach hsame ?_ ?_ ?_ fun _ => .inr (.inl ⟨chunk, by simp [hready]⟩)
    · intro hno
      exact absurd (by simp [hready]) (hno chunk)
    · intro chunk' hm
      rw [hready, Multiset.mem_singleton, Completion.read.injEq] at hm
      subst hm
      refine ⟨hne, ?_⟩
      rw [← hcalm]
      exact congrArg _ hcut
    · intro hm
      simp [hready] at hm
  | sent hnone hready hsame =>
    have hunsent : s.unsent = [] := by simpa [allows] using hallows
    rw [hunwritten hsame.written, arriving_other (by simp)]
    refine wired_sameBytes h hlive hreach hsame (fun _ => h.calm (by simp [hnone])) ?_ (fun _ => hunsent) ?_
    · intro chunk hm
      simp [hready] at hm
    · intro hw
      rcases h.busy hw hlive with hin | ⟨chunk, hm⟩ | hout
      · exact .inl hin
      · simp [hnone] at hm
      · exact .inr (.inr hout)
  | apart hother hready hsame =>
    rw [hunwritten hsame.written, arriving_other fun chunk => (hother (.read chunk) rfl).1]
    refine wired_sameBytes h hlive hreach hsame ?_ ?_ ?_ ?_
    · rw [hready]
      exact h.calm
    · rw [hready]
      exact h.arrived
    · rw [hready]
      exact h.written
    · rw [hready]
      exact fun hw => h.busy hw hlive
  | turned env hready hnone hreceived hwritten =>
    have hunsent := h.written (by simp [hready])
    rw [hunwritten hwritten, arriving_other (by simp)]
    refine ⟨hreach, h.whole, fun _ => ?_, ?_, ?_, ?_, ?_, ?_⟩
    · show session.received.flatten ++ s.inbound = _
      rw [hreceived]
      exact h.calm (by simp [hready])
    · intro chunk hm
      simp [hnone] at hm
    · exact fun _ => hunsent
    · exact fun hne => absurd hunsent hne
    · intro hw _
      rcases h.busy hw hlive with hin | ⟨chunk, hm⟩ | hout
      · exact .inl hin
      · simp [hready] at hm
      · exact .inr (.inr hout)
    · show _ = session.written.flatten
      rw [hwritten]
      exact h.order
  | read chunk env hready hnone hreceived hclosed hout =>
    obtain ⟨hne, hsent⟩ := h.arrived chunk (by simp [hready])
    have hsent' : session.received.flatten ++ s.inbound = s.sent.flatten := by
      rw [hreceived, ← hsent]
      simp
    have hnoread : ∀ chunk', .read chunk' ∈ session.successes → chunk' ≠ [] ∧
        session.received.flatten ++ (chunk' ++ s.inbound) = s.sent.flatten := by
      intro chunk' hm
      simp [hnone] at hm
    have hnowrote : .wrote ∉ session.successes := by simp [hnone]
    rw [arriving_other (by simp)]
    rcases hout with ⟨hcrashed, hwritten⟩ | ⟨bytes, hbytes, hwritten, hm⟩ | ⟨hwritten, reqs, cur, hreads, hp⟩
    · rw [hunwritten hwritten]
      refine ⟨hreach, h.whole, fun _ => hsent', hnoread, fun hm => absurd hm hnowrote, ?_, ?_, ?_⟩
      · intro _ hl
        exact absurd (hcrashed.symm.trans hl) (by simp)
      · intro _ hl
        exact absurd (hcrashed.symm.trans hl) (by simp)
      · show _ = session.written.flatten
        rw [hwritten]
        exact h.order
    · have hunsent : (session.written.drop s.session.written.length).flatten = bytes := by
        rw [hwritten, List.drop_left, List.flatten_singleton]
      rw [hunsent]
      refine ⟨hreach, h.whole, fun _ => hsent', hnoread, fun hm => absurd hm hnowrote, fun _ _ _ => hm, ?_, ?_⟩
      · intro _ _
        refine .inr (.inr (.inl fun hnil => ?_))
        exact hbytes (List.append_eq_nil_iff.mp hnil).2
      · show _ = session.written.flatten
        rw [hwritten, List.flatten_append, ← h.order]
        simp
    · rw [hunwritten hwritten]
      refine ⟨hreach, h.whole, fun _ => hsent', hnoread, fun hm => absurd hm hnowrote, ?_, ?_, ?_⟩
      · -- A read would have come in beside the write.
        intro hunsent _ hopen
        have hw := h.writing hunsent hlive (hclosed.symm.trans hopen)
        have hr := Session.mem_outstanding s.session (Session.mem_successes.mp (by simp [hready] : .read chunk ∈ _)).1
        have hone := hsync.one
        have := Multiset.count_pos.mpr hw
        have := Multiset.count_pos.mpr hr
        simp only [Completion.op] at this
        omega
      · intro _ _
        exact .inl (inbound_of_unread h.whole hsent' hreads hne hp)
      · show _ = session.written.flatten
        rw [hwritten]
        exact h.order

theorem wired_step {s t : Benchmark δ} {e : Event δ} (h : Wired cfg sessionId s)
    (hsend : ∀ request, e = .send request → OneRequest request) (hs : step cfg sessionId s e = some t) :
    Wired cfg sessionId t := by
  cases e with
  | session e' => exact wired_step_session h hs
  | send request => exact wired_step_client h (by simp) hsend hs
  | recv n => exact wired_step_client h (by simp) hsend hs
  | eof => exact wired_step_client h (by simp) hsend hs
  | transfer n => exact wired_step_client h (by simp) hsend hs

theorem wired_after {es : List (Event δ)} {s : Benchmark δ} (hsend : ∀ request, .send request ∈ es → OneRequest request)
    (h : after cfg sessionId es = some s) : Wired cfg sessionId s := by
  have hes : ∀ e ∈ es, ∀ request, e = .send request → OneRequest request := by
    intro e he request heq
    exact hsend request (heq ▸ he)
  refine Machine.run_invariant_on ?_ es hes wired_new h
  intro s e t hs he hstep
  exact wired_step hs he hstep

/-! ## (1) The client is answered -/

/-- A request, or a `Stop`: what has to be asked for. -/
def Event.asked : Event δ → Bool
  | .send _ | .session .stop => true
  | _ => false

/-- Neither of these, nor the failure of an operation of the session. The end of the stream, on
    which `SendAndRecv` returns false, counts as none. -/
def Event.succeeds : Event δ → Bool
  | .session (.complete c) => c.succeeded
  | e => !e.asked

/-- What can happen before the client sends again, beside sending what is still to be written. -/
def effort (s : Benchmark δ) : Nat := 4 * s.inbound.length + s.session.effort + s.unsent.length + s.waiting.toNat

/-- The bytes handed to `async_write` so far. -/
def written (s : Benchmark δ) : Bytes := s.session.written.flatten

/-- Somebody can go on while the client waits. -/
theorem can_go_on {s : Benchmark δ} (h : Wired cfg sessionId s) (hw : s.waiting = true) (hlive : s.session.crashed = false)
    (env : Env δ) : ∃ e, e.succeeds = true ∧ (step cfg sessionId s e).isSome = true := by
  rcases List.eq_nil_or_concat s.outbound with hout | ⟨init, last, hout⟩
  · cases hclosed : s.session.closed with
    | true => exact ⟨.eof, rfl, by simp [step, hw, hclosed]⟩
    | false =>
      rcases Multiset.empty_or_exists_mem s.session.ready with hready | ⟨c, hc⟩
      · obtain ⟨es, hes⟩ := h.reach
        have houtstanding : s.session.outstanding = s.session.pending := by simp [Session.outstanding, hready]
        have hsuccesses : s.session.successes = 0 := by simp [Session.successes, hready]
        rcases List.eq_nil_or_concat s.unsent with hunsent | ⟨init, last, hunsent⟩
        · have hbusy := (Session.engaged_after hes).busy hlive hclosed
          rw [Session.transfers, houtstanding] at hbusy
          rcases Nat.eq_zero_or_pos (s.session.pending.count .write) with hwrite | hwrite
          · have hread : .read ∈ s.session.pending := Multiset.count_pos.mp (by omega)
            have hin : s.inbound ≠ [] := by
              rcases h.busy hw hlive with hin | ⟨chunk, hm⟩ | hu | ho
              · exact hin
              · simp [hsuccesses] at hm
              · exact absurd hunsent hu
              · exact absurd hout ho
            refine ⟨.session (.complete (.read s.inbound)), rfl, ?_⟩
            simp [step, allows, Session.step, hlive, Completion.op, hread, Completion.possible, hin]
          · refine ⟨.session (.complete .wrote), rfl, ?_⟩
            simp [step, allows, Session.step, hlive, Completion.op, Multiset.count_pos.mp hwrite, Completion.possible, hunsent]
        · have hwrite := h.writing (by simp [hunsent]) hlive hclosed
          rw [houtstanding] at hwrite
          exact ⟨.transfer 1, rfl, by simp [step, hlive, hwrite, hunsent]⟩
      · refine ⟨.session (.run c env), rfl, ?_⟩
        simp [step, allows, Session.step, hlive, hc]
  · exact ⟨.recv 1, rfl, by simp [step, hw, hout]⟩

/-- No step of a session takes back what was written. -/
theorem written_onSocket {s t : Session δ} {e : Session.Event δ} (h : Session.OnSocket s t e) :
    t.written.flatten = s.written.flatten ++ (t.written.drop s.written.length).flatten := by
  have hsame : t.written = s.written → t.written.flatten = s.written.flatten ++ (t.written.drop s.written.length).flatten := by
    intro hw
    rw [hw, List.drop_length, List.flatten_nil, List.append_nil]
  cases h with
  | arrived chunk hne hnone hready hbytes => exact hsame hbytes.written
  | sent hnone hready hbytes => exact hsame hbytes.written
  | apart hother hready hbytes => exact hsame hbytes.written
  | turned env hready hnone hreceived hwritten => exact hsame hwritten
  | read chunk env hready hnone hreceived hclosed hout =>
    rcases hout with ⟨-, hwritten⟩ | ⟨bytes, -, hwritten, -⟩ | ⟨hwritten, -⟩
    · exact hsame hwritten
    · rw [hwritten, List.drop_left, List.flatten_append]
    · exact hsame hwritten

theorem effort_step {s t : Benchmark δ} {e : Event δ} (h : Wired cfg sessionId s) (he : e.asked = false)
    (hs : step cfg sessionId s e = some t) : 1 + (t.effort + s.written.length) ≤ s.effort + t.written.length := by
  cases e with
  | send request => cases he
  | recv n =>
    obtain ⟨⟨hw, -⟩, ht⟩ := Option.ite_none_right_eq_some.mp hs
    obtain rfl := Option.some.inj ht
    simp only [effort, written, hw, Bool.toNat_true, Bool.toNat_false]
    omega
  | eof =>
    obtain ⟨⟨hw, -⟩, ht⟩ := Option.ite_none_right_eq_some.mp hs
    obtain rfl := Option.some.inj ht
    simp only [effort, written, hw, Bool.toNat_true, Bool.toNat_false]
    omega
  | transfer n =>
    obtain ⟨⟨-, -, hpos, hle⟩, ht⟩ := Option.ite_none_right_eq_some.mp hs
    obtain rfl := Option.some.inj ht
    simp only [effort, written, List.length_drop]
    omega
  | session e =>
    obtain ⟨hallows, hs⟩ := Option.ite_none_right_eq_some.mp hs
    obtain ⟨session, hsession, rfl⟩ := Option.map_eq_some_iff.mp hs
    obtain ⟨es, hes⟩ := h.reach
    obtain ⟨cur, hsync⟩ := Session.synced_after hes
    have hwritten := congrArg List.length (written_onSocket (Session.step_onSocket hsync hsession))
    have heffort := Session.effort_step hsession (by rintro rfl; cases he)
    simp only [List.length_append] at hwritten
    have harriving := congrArg List.length (take_arriving hallows)
    simp only [List.length_take] at harriving
    simp only [effort, written, List.length_append, List.length_drop]
    omega

theorem effort_run {s t : Benchmark δ} {es : List (Event δ)} (h : Wired cfg sessionId s) (hes : ∀ e ∈ es, e.asked = false)
    (hrun : Machine.run (step cfg sessionId) s es = some t) :
    es.length + (t.effort + s.written.length) ≤ s.effort + t.written.length := by
  induction es generalizing s with
  | nil =>
    cases hrun
    simp
  | cons e es ih =>
    obtain ⟨u, hu, hrun⟩ := Option.bind_eq_some_iff.mp hrun
    have he := hes e List.mem_cons_self
    have hsend : ∀ request, e = .send request → OneRequest request := by
      rintro request rfl
      cases he
    have hfirst := effort_step h he hu
    have hrest := ih (wired_step h hsend hu) (fun e he => hes e (List.mem_cons_of_mem _ he)) hrun
    rw [List.length_cons]
    omega

/-- A client that sends whole requests is not left in `recv`. -/
theorem never_stalls {es es' : List (Event δ)} {s t : Benchmark δ} (hsend : ∀ request, .send request ∈ es → OneRequest request)
    (h : after cfg sessionId es = some s) (hes' : ∀ e ∈ es', e.asked = false)
    (hrun : Machine.run (step cfg sessionId) s es' = some t) :
    es'.length + (t.effort + s.written.length) ≤ s.effort + t.written.length ∧
    (t.waiting = true → t.session.crashed = false → Env δ → ∃ e, e.succeeds = true ∧
      (step cfg sessionId t e).isSome = true) := by
  have hw := wired_after hsend h
  have ht : Wired cfg sessionId t := by
    refine Machine.run_invariant_on ?_ es' hes' hw hrun
    intro s e t hs he hstep
    refine wired_step hs ?_ hstep
    rintro request rfl
    cases he
  exact ⟨effort_run hw hes' hrun, fun hwaiting hlive env => can_go_on ht hwaiting hlive env⟩

theorem oneRequest_buildRequest (keepAlive : Bool) : OneRequest (buildRequest keepAlive) := by
  have hp : (parse .fresh (buildRequest keepAlive)).1 = .returned true ∧ (parse .fresh (buildRequest keepAlive)).2.2 = [] := by
    cases keepAlive <;> decide +kernel
  exact ⟨_, Prod.ext hp.1 (Prod.ext rfl hp.2)⟩

/-- The request arrives in two pieces, and ten bytes of the response are sent. -/
def answering : List (Event Unit) :=
  let first := (buildRequest true).take 9
  let rest := (buildRequest true).drop 9
  [.session (.complete (.read first)), .session (.run (.read first) ⟨site, ()⟩),
    .session (.complete (.read rest)), .session (.run (.read rest) ⟨site, ()⟩), .transfer 10]

theorem answering_goes_on : ∃ s t, after siteConfig 1 [.send (buildRequest true)] = some s ∧
    Machine.run (step siteConfig 1) s answering = some t ∧ t.waiting = true ∧ t.outbound.length = 10 ∧
    ∃ e, e.succeeds = true ∧ (step siteConfig 1 t e).isSome = true := by
  have hv : (after siteConfig 1 [.send (buildRequest true)]).bind (fun s =>
      (Machine.run (step siteConfig 1) s answering).map fun t =>
      decide (t.waiting = true ∧ t.session.crashed = false ∧ t.outbound.length = 10)) = some true := by decide +kernel
  obtain ⟨s, hs, hv⟩ := Option.bind_eq_some_iff.mp hv
  obtain ⟨t, ht, hd⟩ := Option.map_eq_some_iff.mp hv
  obtain ⟨hw, hlive, hout⟩ := of_decide_eq_true hd
  have hsend : ∀ request, Event.send request ∈ [(.send (buildRequest true) : Event Unit)] → OneRequest request := by
    intro request hm
    cases List.mem_singleton.mp hm
    exact oneRequest_buildRequest true
  exact ⟨s, t, hs, ht, hw, hout, (never_stalls hsend hs (by decide +kernel) ht).2 hw hlive ⟨site, ()⟩⟩

/-! ## (2) What it reads -/

/-- The bytes the client gets are the responses to its first requests, in their order. -/
theorem client_sees {es : List (Event δ)} {s : Benchmark δ} (hsend : ∀ request, .send request ∈ es → OneRequest request)
    (h : after cfg sessionId es = some s) :
    s.session.handled.map (·.1) <+: s.sent.map (fun request => (parse .fresh request).2.1) ∧
    s.got.flatten <+: (s.session.handled.filterMap (Session.reply cfg sessionId)).flatten := by
  have hw := wired_after hsend h
  obtain ⟨es', hes'⟩ := hw.reach
  obtain ⟨cur, hsync⟩ := Session.synced_after hes'
  have hsent : ∃ rest, s.session.received.flatten ++ rest = s.sent.flatten := by
    by_cases hread : ∃ chunk, .read chunk ∈ s.session.successes
    · obtain ⟨chunk, hm⟩ := hread
      exact ⟨_, (hw.arrived chunk hm).2⟩
    · exact ⟨_, hw.calm fun chunk hm => hread ⟨chunk, hm⟩⟩
  obtain ⟨rest, hsent⟩ := hsent
  have hreads := reads_append hsync.reads rest
  rw [hsent] at hreads
  obtain ⟨k, hreqs, -⟩ := reads_each hreads hw.whole rfl
  refine ⟨?_, ?_⟩
  · rw [hreqs, List.map_take]
    exact List.take_prefix _ _
  · rw [← hsync.replies, ← hw.order]
    exact List.prefix_append _ _

/-- Ten bytes of the response are enough for the client. -/
theorem ten_bytes_seen : ∃ s, after siteConfig 1 (.send (buildRequest true) :: answering ++ [.recv 10]) = some s ∧
    s.got.flatten = ascii "HTTP/1.1 2" ∧ s.session.handled.length = 1 ∧
    s.got.flatten <+: (s.session.handled.filterMap (Session.reply siteConfig 1)).flatten := by
  have hv : (after siteConfig 1 (.send (buildRequest true) :: answering ++ [.recv 10])).map (fun s =>
      decide (s.got.flatten = ascii "HTTP/1.1 2" ∧ s.session.handled.length = 1)) = some true := by decide +kernel
  obtain ⟨s, hs, hd⟩ := Option.map_eq_some_iff.mp hv
  obtain ⟨hgot, hhandled⟩ := of_decide_eq_true hd
  refine ⟨s, hs, hgot, hhandled, (client_sees ?_ hs).2⟩
  intro request hm
  simp only [answering, List.cons_append, List.mem_cons, List.nil_append, List.not_mem_nil, or_false, reduceCtorEq,
    Event.send.injEq] at hm
  rw [hm]
  exact oneRequest_buildRequest true

end Benchmark

end BreWebServer.Server
