/-
  BreWebServer.Server.Connection — `HttpConnection` as a state machine over its completion
  handlers.

  It reads until one request is parsed, answers it and shuts the socket down. It has no
  timer and nothing stops it. Of the asynchronous library the same is taken as for
  `Session`; and of `async_write`, that the call which starts it sends what the socket
  takes at once and that the rest is read from the buffer later. The buffer is a variable
  of `_handleRequest`, gone by then: what is sent of it later is whatever the memory holds.

  (1) `one_response`: however the stream is cut into reads, what is handled is its first
  request, once; one operation at most is outstanding, and nothing is read after it.

  (2) `intact_iff`: the response that a client gets is the one that was built, whatever the
  memory holds, exactly when the call that started the write sent all of it.
-/

import BreWebServer.Http.Connection
import BreWebServer.Server.Exchange

namespace BreWebServer.Server

open BreWebServer.Lib BreWebServer.Cpp BreWebServer.Http

structure HttpConnection where
  readBuffer : Buffer
  request : HttpRequest
  pending : Multiset Op
  ready : Multiset Completion
  crashed : Bool
  shutDown : Bool
  /-- What each successful read gave, once its handler has run. -/
  received : List Bytes
  /-- The requests handled, each with the files it was handled in. -/
  handled : List (HttpRequest × Fs)
  /-- The bytes sent. -/
  sent : Bytes
  /-- How many bytes of the response are still to be sent. -/
  unsent : Nat

namespace HttpConnection

/-! ## The connection's functions -/

def doRead (s : HttpConnection) : HttpConnection := { s with pending := .read ::ₘ s.pending }

/-- The call that starts the write sends `atOnce` bytes. -/
def doWrite (buffer : Buffer) (atOnce : Nat) (s : HttpConnection) : HttpConnection :=
  { s with
    pending := .write ::ₘ s.pending
    sent := s.sent ++ buffer.take atOnce
    unsent := (buffer.drop atOnce).length }

/-- What the constructor leaves. -/
def new : HttpConnection := ⟨[], .fresh, 0, 0, false, false, [], [], [], 0⟩

def start (s : HttpConnection) : HttpConnection := s.doRead

variable (resourceDir : Bytes) (it : HttpResponse.MapOrder)

/-- The bytes on which `_handleRequest` calls `_doWrite`. -/
def reply (fs : Fs) (req : HttpRequest) : Except Exc Bytes :=
  (Http.HttpConnection.handleRequest resourceDir fs req).map (HttpResponse.encode it)

def handleRequest (fs : Fs) (atOnce : Nat) (s : HttpConnection) : HttpConnection :=
  let s := { s with handled := s.handled ++ [(s.request, fs)] }
  match reply resourceDir it fs s.request with
  | .error _ => { s with crashed := true }
  | .ok buffer => s.doWrite buffer atOnce

/-! ## The completion handlers -/

def onRead (fs : Fs) (atOnce : Nat) (chunk : Bytes) (s : HttpConnection) : HttpConnection :=
  let s := { s with readBuffer := s.readBuffer ++ chunk, received := s.received ++ [chunk] }
  match parse s.request s.readBuffer with
  | (.returned true, request, readBuffer) => { s with request, readBuffer }.handleRequest resourceDir it fs atOnce
  | (.returned false, request, readBuffer) => { s with request, readBuffer }.doRead
  | (.threw _, request, readBuffer) => { s with request, readBuffer, crashed := true }

def handle (fs : Fs) (atOnce : Nat) (c : Completion) (s : HttpConnection) : HttpConnection :=
  match c with
  | .read chunk => s.onRead resourceDir it fs atOnce chunk
  | .wrote => { s with shutDown := true }
  -- A failure is printed.
  | .failed _ _ | .expired => s

/-! ## The machine -/

inductive Event where
  /-- The operating system completes a pending operation. -/
  | complete (c : Completion)
  /-- The write under way sends what the memory of its buffer holds. -/
  | transfer (bytes : Bytes)
  /-- The executor runs a ready handler; a request it handles sees `fs`, and the socket
      takes `atOnce` bytes of the response at once. -/
  | run (c : Completion) (fs : Fs) (atOnce : Nat)

/-- A write is complete when all is sent. -/
def completes (s : HttpConnection) (c : Completion) : Bool := c.possible && (c != .wrote || s.unsent == 0)

def step (s : HttpConnection) : Event → Option HttpConnection
  | .complete c =>
    if s.crashed = false ∧ c.op ∈ s.pending ∧ s.completes c then
      some { s with pending := s.pending.erase c.op, ready := c ::ₘ s.ready }
    else none
  | .transfer bytes =>
    if s.crashed = false ∧ .write ∈ s.pending ∧ bytes.length ≤ s.unsent then
      some { s with sent := s.sent ++ bytes, unsent := s.unsent - bytes.length }
    else none
  | .run c fs atOnce =>
    if s.crashed = false ∧ c ∈ s.ready then
      some ({ s with ready := s.ready.erase c }.handle resourceDir it fs atOnce c)
    else none

def after (es : List Event) : Option HttpConnection := Machine.run (step resourceDir it) new.start es

/-- The operations started whose handlers have not run. -/
def outstanding (s : HttpConnection) : Multiset Op := s.pending + s.ready.map Completion.op

/-! ## What a step can do -/

section Steps

variable {s t : HttpConnection}

theorem outstanding_start (op : Op) : { s with pending := op ::ₘ s.pending }.outstanding = op ::ₘ s.outstanding :=
  Multiset.cons_add op s.pending _

theorem outstanding_dequeue {c : Completion} (h : c ∈ s.ready) :
    s.outstanding = c.op ::ₘ { s with ready := s.ready.erase c }.outstanding := by
  simp only [outstanding]
  rw [← Multiset.add_cons, ← Multiset.map_cons, Multiset.cons_erase h]

variable {resourceDir : Bytes} {it : HttpResponse.MapOrder}

theorem step_complete {c : Completion} (h : step resourceDir it s (.complete c) = some t) :
    c.op ∈ s.pending ∧ s.completes c ∧ t = { s with pending := s.pending.erase c.op, ready := c ::ₘ s.ready } := by
  obtain ⟨⟨-, hp, hc⟩, ht⟩ := Option.ite_none_right_eq_some.mp h
  exact ⟨hp, hc, (Option.some.inj ht).symm⟩

theorem step_transfer {bytes : Bytes} (h : step resourceDir it s (.transfer bytes) = some t) :
    .write ∈ s.pending ∧ bytes.length ≤ s.unsent ∧
      t = { s with sent := s.sent ++ bytes, unsent := s.unsent - bytes.length } := by
  obtain ⟨⟨-, hp, hl⟩, ht⟩ := Option.ite_none_right_eq_some.mp h
  exact ⟨hp, hl, (Option.some.inj ht).symm⟩

theorem step_run {c : Completion} {fs : Fs} {atOnce : Nat} (h : step resourceDir it s (.run c fs atOnce) = some t) :
    s.crashed = false ∧ c ∈ s.ready ∧ t = { s with ready := s.ready.erase c }.handle resourceDir it fs atOnce c := by
  obtain ⟨⟨hl, hc⟩, ht⟩ := Option.ite_none_right_eq_some.mp h
  exact ⟨hl, hc, (Option.some.inj ht).symm⟩

variable (resourceDir it) in
theorem onRead_cases (fs : Fs) (atOnce : Nat) (chunk : Bytes) (s : HttpConnection) :
    (∃ request readBuffer, parse s.request (s.readBuffer ++ chunk) = (.returned true, request, readBuffer) ∧
      ((∃ buffer, reply resourceDir it fs request = .ok buffer ∧ s.onRead resourceDir it fs atOnce chunk =
        { s with
          request, readBuffer
          received := s.received ++ [chunk]
          handled := s.handled ++ [(request, fs)] }.doWrite buffer atOnce) ∨
      (∃ e, reply resourceDir it fs request = .error e ∧ s.onRead resourceDir it fs atOnce chunk =
        { s with
          request, readBuffer
          received := s.received ++ [chunk]
          handled := s.handled ++ [(request, fs)]
          crashed := true }))) ∨
    (∃ request readBuffer, parse s.request (s.readBuffer ++ chunk) = (.returned false, request, readBuffer) ∧
      s.onRead resourceDir it fs atOnce chunk =
        { s with request, readBuffer, received := s.received ++ [chunk] }.doRead) ∨
    (∃ ex request readBuffer, parse s.request (s.readBuffer ++ chunk) = (.threw ex, request, readBuffer) ∧
      s.onRead resourceDir it fs atOnce chunk =
        { s with request, readBuffer, received := s.received ++ [chunk], crashed := true }) := by
  obtain ⟨⟨o, request, readBuffer⟩, hp⟩ : ∃ out, parse s.request (s.readBuffer ++ chunk) = out := ⟨_, rfl⟩
  cases o with
  | returned b =>
    cases b with
    | true =>
      refine .inl ⟨request, readBuffer, hp, ?_⟩
      cases hr : reply resourceDir it fs request with
      | ok buffer => exact .inl ⟨buffer, rfl, by simp only [onRead, hp, handleRequest, hr]⟩
      | error e => exact .inr ⟨e, rfl, by simp only [onRead, hp, handleRequest, hr]⟩
    | false => exact .inr (.inl ⟨request, readBuffer, hp, by simp only [onRead, hp]⟩)
  | threw ex => exact .inr (.inr ⟨ex, request, readBuffer, hp, by simp only [onRead, hp]⟩)

end Steps

/-! ## (1) One response -/

variable {resourceDir : Bytes} {it : HttpResponse.MapOrder}

/-- The requests that a connection answers. -/
def firstRequest (stream : Bytes) : List HttpRequest := (requests stream).take 1

variable (resourceDir it) in
/-- `q` was handled, and `buffer` is being sent or has been. -/
structure Answering (s : HttpConnection) (q : HttpRequest × Fs) (buffer : Bytes) : Prop where
  handled : s.handled = [q]
  first : firstRequest s.received.flatten = [q.1]
  reply : reply resourceDir it q.2 q.1 = .ok buffer
  length : s.sent.length + s.unsent = buffer.length

variable (resourceDir it) in
/-- Where a connection stands. -/
inductive Stage (s : HttpConnection) : Prop
  | reading (op : s.outstanding = {.read}) (handled : s.handled = []) (open_ : s.shutDown = false) (unsent : s.sent = [])
      (none_ : firstRequest s.received.flatten = [])
      (resumes : ∀ c, parse s.request (s.readBuffer ++ c) = parse .fresh (s.received.flatten ++ c))
  | writing (q : HttpRequest × Fs) (buffer : Bytes) (op : s.outstanding = {.write}) (open_ : s.shutDown = false)
      (answering : Answering resourceDir it s q buffer) (all : .wrote ∈ s.ready → s.unsent = 0)
  | ended (op : s.outstanding = 0) (handled : s.handled.map (·.1) = firstRequest s.received.flatten)
      (sent : s.shutDown = true → ∃ q buffer, Answering resourceDir it s q buffer ∧ s.unsent = 0)

theorem firstRequest_of_parse {stream rest : Bytes} {req : HttpRequest}
    (h : parse .fresh stream = (.returned true, req, rest)) : firstRequest stream = [req] := by
  rw [firstRequest, requests_cons h]
  rfl

theorem firstRequest_nil {stream : Bytes} (h : (parse .fresh stream).1 ≠ .returned true) : firstRequest stream = [] := by
  rw [firstRequest, requests_nil h]
  rfl

theorem stage_new : Stage resourceDir it new.start := by
  refine .reading rfl rfl rfl rfl (firstRequest_nil ?_) fun c => rfl
  decide

theorem stage_complete {s : HttpConnection} {c : Completion} (h : Stage resourceDir it s) (hp : c.op ∈ s.pending)
    (hc : s.completes c) :
    Stage resourceDir it { s with pending := s.pending.erase c.op, ready := c ::ₘ s.ready } := by
  have ho : { s with pending := s.pending.erase c.op, ready := c ::ₘ s.ready }.outstanding = s.outstanding := by
    simp only [outstanding, Multiset.map_cons, Multiset.add_cons, ← Multiset.cons_add]
    rw [Multiset.cons_erase hp]
  cases h with
  | reading op handled open_ unsent none_ resumes => exact .reading (ho.trans op) handled open_ unsent none_ resumes
  | writing q buffer op open_ answering all =>
    refine .writing q buffer (ho.trans op) open_ ⟨answering.handled, answering.first, answering.reply, answering.length⟩ ?_
    intro hm
    rcases Multiset.mem_cons.mp hm with rfl | hm
    · simpa [completes] using (Bool.and_eq_true_iff.mp hc).2
    · exact all hm
  | ended op handled sent =>
    have : c.op ∈ s.outstanding := Multiset.mem_add.mpr (.inl hp)
    rw [op] at this
    cases this

theorem stage_transfer {s : HttpConnection} {bytes : Bytes} (h : Stage resourceDir it s) (hp : .write ∈ s.pending)
    (hl : bytes.length ≤ s.unsent) :
    Stage resourceDir it { s with sent := s.sent ++ bytes, unsent := s.unsent - bytes.length } := by
  have hm : .write ∈ s.outstanding := Multiset.mem_add.mpr (.inl hp)
  cases h with
  | reading op handled open_ unsent none_ resumes =>
    rw [op, Multiset.mem_singleton] at hm
    cases hm
  | writing q buffer op open_ answering all =>
    refine .writing q buffer op open_ ⟨answering.handled, answering.first, answering.reply, ?_⟩ ?_
    · have := answering.length
      simp only [List.length_append]
      omega
    · intro hw
      have := all hw
      show s.unsent - bytes.length = 0
      omega
  | ended op handled sent =>
    rw [op] at hm
    cases hm

/-- The handler of a read, on what has been received with it. -/
theorem stage_onRead {s : HttpConnection} {chunk : Bytes} (fs : Fs) (atOnce : Nat) (ho : s.outstanding = 0)
    (handled : s.handled = []) (open_ : s.shutDown = false) (unsent : s.sent = [])
    (resumes : ∀ c, parse s.request (s.readBuffer ++ c) = parse .fresh (s.received.flatten ++ c)) :
    Stage resourceDir it (s.onRead resourceDir it fs atOnce chunk) := by
  have hstream : (s.received ++ [chunk]).flatten = s.received.flatten ++ chunk := by simp
  have hparse : parse .fresh (s.received ++ [chunk]).flatten = parse s.request (s.readBuffer ++ chunk) := by
    rw [hstream, resumes]
  have hopen : ∀ {p : Prop}, s.shutDown = true → p := by
    intro p hs
    rw [open_] at hs
    cases hs
  rcases onRead_cases resourceDir it fs atOnce chunk s with
    ⟨req, rest, hq, hr⟩ | ⟨req, rest, hq, he⟩ | ⟨ex, req, rest, hq, he⟩
  · have hfirst : firstRequest (s.received ++ [chunk]).flatten = [req] := firstRequest_of_parse (hparse.trans hq)
    have hhandled : s.handled ++ [(req, fs)] = [(req, fs)] := by rw [handled, List.nil_append]
    rcases hr with ⟨buffer, hreply, he⟩ | ⟨e, -, he⟩
    · rw [he]
      refine .writing (req, fs) buffer ((outstanding_start .write).trans (congrArg _ ho)) open_
        ⟨hhandled, hfirst, hreply, ?_⟩ ?_
      · show (s.sent ++ buffer.take atOnce).length + (buffer.drop atOnce).length = buffer.length
        rw [unsent, List.nil_append, ← List.length_append, List.take_append_drop]
      · intro hm
        have hm : Op.write ∈ s.outstanding := Multiset.mem_add.mpr (.inr (Multiset.mem_map_of_mem _ hm))
        rw [ho] at hm
        cases hm
    · rw [he]
      refine .ended ho ?_ hopen
      show (s.handled ++ [(req, fs)]).map (·.1) = _
      rw [hhandled, hfirst]
      rfl
  · rw [he]
    refine .reading ((outstanding_start .read).trans (congrArg _ ho)) handled open_ unsent (firstRequest_nil ?_) ?_
    · rw [doRead, hparse, hq]
      simp
    · intro c
      show parse req (rest ++ c) = parse .fresh ((s.received ++ [chunk]).flatten ++ c)
      rw [← parse_resume hq c, hstream, List.append_assoc, List.append_assoc, resumes]
  · rw [he]
    refine .ended ho ?_ hopen
    show s.handled.map (·.1) = firstRequest (s.received ++ [chunk]).flatten
    rw [handled, firstRequest_nil]
    · rfl
    · rw [hparse, hq]
      simp

theorem stage_run {s : HttpConnection} {c : Completion} (fs : Fs) (atOnce : Nat) (h : Stage resourceDir it s)
    (hc : c ∈ s.ready) : Stage resourceDir it ({ s with ready := s.ready.erase c }.handle resourceDir it fs atOnce c) := by
  have ho := outstanding_dequeue hc
  cases h with
  | reading op handled open_ unsent none_ resumes =>
    rw [op] at ho
    obtain ⟨hop, hrest⟩ := Multiset.singleton_eq_cons_iff _ |>.mp ho
    cases c with
    | read chunk => exact stage_onRead fs atOnce hrest handled open_ unsent resumes
    | wrote => cases hop
    | expired => cases hop
    | failed op ec =>
      refine .ended hrest ?_ ?_
      · show s.handled.map (·.1) = firstRequest s.received.flatten
        rw [handled, none_]
        rfl
      · intro hs
        rw [show s.shutDown = true from hs] at open_
        cases open_
  | writing q buffer op open_ answering all =>
    rw [op] at ho
    obtain ⟨hop, hrest⟩ := Multiset.singleton_eq_cons_iff _ |>.mp ho
    have hhandled : s.handled.map (·.1) = firstRequest s.received.flatten := by
      rw [answering.handled, answering.first]
      rfl
    cases c with
    | read chunk => cases hop
    | wrote =>
      refine .ended hrest hhandled fun _ => ⟨q, buffer, ?_, all hc⟩
      exact ⟨answering.handled, answering.first, answering.reply, answering.length⟩
    | expired => cases hop
    | failed op ec =>
      refine .ended hrest hhandled ?_
      intro hs
      rw [show s.shutDown = true from hs] at open_
      cases open_
  | ended op handled sent =>
    rw [op] at ho
    exact absurd ho (Multiset.zero_ne_cons)

theorem stage_step {s t : HttpConnection} {e : Event} (h : Stage resourceDir it s) (hs : step resourceDir it s e = some t) :
    Stage resourceDir it t := by
  cases e with
  | complete c =>
    obtain ⟨hp, hc, rfl⟩ := step_complete hs
    exact stage_complete h hp hc
  | transfer bytes =>
    obtain ⟨hp, hl, rfl⟩ := step_transfer hs
    exact stage_transfer h hp hl
  | run c fs atOnce =>
    obtain ⟨-, hc, rfl⟩ := step_run hs
    exact stage_run fs atOnce h hc

theorem stage_after {es : List Event} {s : HttpConnection} (h : after resourceDir it es = some s) : Stage resourceDir it s :=
  Machine.run_invariant stage_step es stage_new h

/-- Nothing is read once a request is handled. -/
theorem stage_reads {s : HttpConnection} (h : Stage resourceDir it s) (hh : s.handled ≠ []) : .read ∉ s.outstanding := by
  intro hm
  cases h with
  | reading op handled open_ unsent none_ resumes => exact hh handled
  | writing q buffer op open_ answering all =>
    rw [op, Multiset.mem_singleton] at hm
    cases hm
  | ended op handled sent =>
    rw [op] at hm
    cases hm

/-- What a connection answers, and what it leaves. -/
theorem one_response {es : List Event} {s : HttpConnection} (h : after resourceDir it es = some s) :
    s.handled.map (·.1) = (requests s.received.flatten).take 1 ∧ s.outstanding.card ≤ 1 ∧
    (s.handled ≠ [] → .read ∉ s.outstanding) ∧
    (s.shutDown = true → s.outstanding = 0 ∧ ∃ q buffer, s.handled = [q] ∧ reply resourceDir it q.2 q.1 = .ok buffer ∧
      s.sent.length = buffer.length) := by
  have hstage := stage_after h
  have hshut : ∀ {p : Prop}, s.shutDown = false → s.shutDown = true → p := by
    intro p hf ht
    rw [hf] at ht
    cases ht
  have hread := stage_reads hstage
  cases hstage with
  | reading op handled open_ unsent none_ resumes =>
    refine ⟨?_, le_of_eq (congrArg Multiset.card op), hread, hshut open_⟩
    rw [handled, ← firstRequest, none_]
    rfl
  | writing q buffer op open_ answering all =>
    refine ⟨?_, le_of_eq (congrArg Multiset.card op), hread, hshut open_⟩
    rw [answering.handled, ← firstRequest, answering.first]
    rfl
  | ended op handled sent =>
    refine ⟨handled, by rw [op]; simp, hread, ?_⟩
    intro hs
    obtain ⟨q, buffer, answering, hall⟩ := sent hs
    refine ⟨op, q, buffer, answering.handled, answering.reply, ?_⟩
    rw [← answering.length, hall, Nat.add_zero]

/-- A client that asks for the page in two pieces, and is sent ten bytes of it at once. -/
theorem page_one_response : ∃ s, after siteConfig.resourceDir siteConfig.order
    [.complete (.read (ascii "GET / HT")), .run (.read (ascii "GET / HT")) site 0,
      .complete (.read (ascii "TP/1.1\r\n\r\nGET")), .run (.read (ascii "TP/1.1\r\n\r\nGET")) site 10] = some s ∧
    s.handled.map (·.1.path) = [ascii "/"] ∧ .read ∉ s.outstanding := by
  have hv : (after siteConfig.resourceDir siteConfig.order
      [.complete (.read (ascii "GET / HT")), .run (.read (ascii "GET / HT")) site 0,
        .complete (.read (ascii "TP/1.1\r\n\r\nGET")), .run (.read (ascii "TP/1.1\r\n\r\nGET")) site 10]).map
      (fun s => decide (s.handled.map (·.1.path) = [ascii "/"])) = some true := by decide +kernel
  obtain ⟨s, hs, hd⟩ := Option.map_eq_some_iff.mp hv
  have hh := of_decide_eq_true hd
  refine ⟨s, hs, hh, (one_response hs).2.2.1 ?_⟩
  intro hnil
  rw [hnil] at hh
  cases hh

/-! ## (2) What the client gets -/

/-- The handler of the read that completes the request. -/
theorem writes_reply {s t : HttpConnection} {chunk : Bytes} {fs : Fs} {atOnce : Nat} {q : HttpRequest × Fs} {buffer : Bytes}
    (h : Stage resourceDir it s) (hs : step resourceDir it s (.run (.read chunk) fs atOnce) = some t)
    (hq : t.handled = [q]) (hb : reply resourceDir it q.2 q.1 = .ok buffer) :
    t.pending = {.write} ∧ t.crashed = false ∧ t.sent = buffer.take atOnce ∧ t.unsent = (buffer.drop atOnce).length := by
  obtain ⟨hlive, hc, ht⟩ := step_run hs
  have ho := outstanding_dequeue hc
  cases h with
  | reading op handled open_ unsent none_ resumes =>
    rw [op] at ho
    obtain ⟨-, hrest⟩ := Multiset.singleton_eq_cons_iff _ |>.mp ho
    have hp : s.pending = 0 := (add_eq_zero.mp hrest).1
    rcases onRead_cases resourceDir it fs atOnce chunk { s with ready := s.ready.erase (.read chunk) } with
      ⟨req, rest, -, hr⟩ | ⟨req, rest, -, he⟩ | ⟨ex, req, rest, -, he⟩
    · have hreply : reply resourceDir it fs req = .ok buffer := by
        have hone : t.handled = s.handled ++ [(req, fs)] := by
          rcases hr with ⟨b, -, he⟩ | ⟨e, -, he⟩
          · rw [ht, handle, he]
            rfl
          · rw [ht, handle, he]
        rw [handled, List.nil_append] at hone
        cases hq.symm.trans hone
        exact hb
      rcases hr with ⟨b, hb', he⟩ | ⟨e, hb', he⟩
      · cases hreply.symm.trans hb'
        rw [ht, handle, he]
        exact ⟨congrArg (Op.write ::ₘ ·) hp, hlive, congrArg (· ++ buffer.take atOnce) unsent, rfl⟩
      · cases hreply.symm.trans hb'
    · rw [ht, handle, he] at hq
      cases handled.symm.trans hq
    · rw [ht, handle, he] at hq
      cases handled.symm.trans hq
  | writing q buffer op open_ answering all =>
    rw [op] at ho
    cases (Multiset.singleton_eq_cons_iff _ |>.mp ho).1
  | ended op handled sent =>
    rw [op] at ho
    exact absurd ho Multiset.zero_ne_cons

variable (resourceDir it) in
/-- All of `buffer` is sent, and no more will be read. -/
structure Settled (buffer : Bytes) (s : HttpConnection) : Prop where
  stage : Stage resourceDir it s
  handled : s.handled ≠ []
  unsent : s.unsent = 0
  sent : s.sent = buffer

theorem settled_step {buffer : Bytes} {s t : HttpConnection} {e : Event} (h : Settled resourceDir it buffer s)
    (hs : step resourceDir it s e = some t) : Settled resourceDir it buffer t := by
  have hstage := stage_step h.stage hs
  cases e with
  | complete c =>
    obtain ⟨-, -, rfl⟩ := step_complete hs
    exact ⟨hstage, h.handled, h.unsent, h.sent⟩
  | transfer bytes =>
    obtain ⟨-, hl, rfl⟩ := step_transfer hs
    rw [h.unsent, Nat.le_zero, List.length_eq_zero_iff] at hl
    subst hl
    exact ⟨hstage, h.handled, h.unsent, (List.append_nil _).trans h.sent⟩
  | run c fs atOnce =>
    obtain ⟨-, hc, rfl⟩ := step_run hs
    cases c with
    | read chunk =>
      have hm : .read ∈ s.outstanding := Multiset.mem_add.mpr (.inr (Multiset.mem_map_of_mem Completion.op hc))
      exact absurd hm (stage_reads h.stage h.handled)
    | wrote => exact ⟨hstage, h.handled, h.unsent, h.sent⟩
    | expired => exact ⟨hstage, h.handled, h.unsent, h.sent⟩
    | failed op ec => exact ⟨hstage, h.handled, h.unsent, h.sent⟩

variable (resourceDir it) in
/-- What is still to be sent is sent as anything. -/
theorem sends_anything {s : HttpConnection} (hp : s.pending = {.write}) (hlive : s.crashed = false) {bytes : Bytes}
    (hl : bytes.length = s.unsent) (fs : Fs) : ∃ t, Machine.run (step resourceDir it) s
      [.transfer bytes, .complete .wrote, .run .wrote fs 0] = some t ∧ t.shutDown = true ∧ t.sent = s.sent ++ bytes := by
  refine ⟨{ s with pending := 0, shutDown := true, sent := s.sent ++ bytes, unsent := 0 }, ?_, rfl, rfl⟩
  simp [Machine.run, step, hlive, hp, hl, completes, Completion.possible, Completion.op, handle]

/-- The connection of a request whose handler has just run, on a socket that took `atOnce`
    bytes of the response. -/
theorem intact_iff {es : List Event} {s t : HttpConnection} {chunk : Bytes} {fs : Fs} {atOnce : Nat} {q : HttpRequest × Fs}
    {buffer : Bytes} (h : after resourceDir it es = some s) (hs : step resourceDir it s (.run (.read chunk) fs atOnce) = some t)
    (hq : t.handled = [q]) (hb : reply resourceDir it q.2 q.1 = .ok buffer) :
    (∀ es' u, Machine.run (step resourceDir it) t es' = some u → u.shutDown = true → u.sent = buffer) ↔
    buffer.length ≤ atOnce := by
  have hstage := stage_after h
  obtain ⟨hp, hlive, hsent, hunsent⟩ := writes_reply hstage hs hq hb
  constructor
  · intro hall
    by_contra hlt
    -- The memory holds other bytes than it did.
    have hlength : ((buffer.drop atOnce).map (· + 1)).length = t.unsent := by rw [List.length_map, hunsent]
    obtain ⟨u, hu, hshut, hus⟩ := sends_anything resourceDir it hp hlive hlength fs
    have hfinal := hall _ u hu hshut
    rw [hus, hsent] at hfinal
    have hrest := List.append_cancel_left (hfinal.trans (List.take_append_drop atOnce buffer).symm)
    cases hd : buffer.drop atOnce with
    | nil => exact hlt (List.drop_eq_nil_iff.mp hd)
    | cons b rest =>
      rw [hd, List.map_cons, List.cons.injEq] at hrest
      have hne : b + 1 ≠ b := by simp
      exact hne hrest.1
  · intro hle es' u hu _
    have hsettled : Settled resourceDir it buffer t := by
      refine ⟨stage_step hstage hs, ?_, ?_, ?_⟩
      · rw [hq]
        exact List.cons_ne_nil _ _
      · rw [hunsent, List.drop_eq_nil_iff.mpr hle]
        rfl
      · rw [hsent, List.take_of_length_le hle]
    exact (Machine.run_invariant settled_step es' hsettled hu).sent

def pageRequest : Bytes := ascii "GET / HTTP/1.1\r\n\r\n"

/-- Ten bytes of a page of the site are sent at once: the rest may come out as anything. -/
theorem page_not_intact : ∃ s t q buffer,
    after siteConfig.resourceDir siteConfig.order [.complete (.read pageRequest)] = some s ∧
    step siteConfig.resourceDir siteConfig.order s (.run (.read pageRequest) site 10) = some t ∧ t.handled = [q] ∧
    reply siteConfig.resourceDir siteConfig.order q.2 q.1 = .ok buffer ∧
    ¬ ∀ es' u, Machine.run (step siteConfig.resourceDir siteConfig.order) t es' = some u → u.shutDown = true →
      u.sent = buffer := by
  have hv : (after siteConfig.resourceDir siteConfig.order [.complete (.read pageRequest)]).bind (fun s =>
      (step siteConfig.resourceDir siteConfig.order s (.run (.read pageRequest) site 10)).bind fun t =>
        t.handled.head?.bind fun q => (reply siteConfig.resourceDir siteConfig.order q.2 q.1).toOption.map fun buffer =>
          decide (t.handled.length = 1 ∧ 10 < buffer.length)) = some true := by decide +kernel
  obtain ⟨s, hs, hv⟩ := Option.bind_eq_some_iff.mp hv
  obtain ⟨t, ht, hv⟩ := Option.bind_eq_some_iff.mp hv
  obtain ⟨q, hq, hv⟩ := Option.bind_eq_some_iff.mp hv
  obtain ⟨buffer, hb, hd⟩ := Option.map_eq_some_iff.mp hv
  obtain ⟨hone, hlong⟩ := of_decide_eq_true hd
  have hq : t.handled = [q] := by
    obtain ⟨rest, hcons⟩ := List.head?_eq_some_iff.mp hq
    rw [hcons, List.length_cons, Nat.succ_inj, List.length_eq_zero_iff] at hone
    rw [hcons, hone]
  have hb : reply siteConfig.resourceDir siteConfig.order q.2 q.1 = .ok buffer := by
    cases hr : reply siteConfig.resourceDir siteConfig.order q.2 q.1 with
    | error e =>
      rw [hr] at hb
      cases hb
    | ok b =>
      rw [hr] at hb
      rw [Option.some.inj hb]
  refine ⟨s, t, q, buffer, hs, ht, hq, hb, ?_⟩
  intro hall
  have := (intact_iff hs ht hq hb).mp hall
  omega

end HttpConnection

end BreWebServer.Server
