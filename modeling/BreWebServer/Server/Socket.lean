/-
  BreWebServer.Server.Socket — what a session does on its socket.

  `OnSocket` says it of each step: bytes arrive, a response has gone out, what arrived is
  handled, the next read is started; or nothing that touches the bytes (`step_onSocket`).
  `effort` bounds what a session can still do with the bytes it has (`effort_step`): every
  step but `Stop` lowers it, unless bytes arrive.
-/

import BreWebServer.Server.Lifetime

namespace BreWebServer.Server

open BreWebServer.Lib BreWebServer.Cpp BreWebServer.Http

/-- Of a read or a write. -/
def Completion.succeeded : Completion → Bool
  | .read _ | .wrote => true
  | _ => false

theorem op_of_succeeded {c : Completion} (h : c.succeeded = true) : c.op ≠ .wait := by
  cases c with
  | read chunk => simp [Completion.op]
  | wrote => simp [Completion.op]
  | expired => cases h
  | failed op ec => cases h

namespace Session

variable {δ : Type} {cfg : Config δ} {sessionId : Nat}

/-- The successful reads and writes whose handlers have not run. -/
def successes (s : Session δ) : Multiset Completion := s.ready.filter fun c => c.succeeded = true

theorem mem_successes {s : Session δ} {c : Completion} : c ∈ s.successes ↔ c ∈ s.ready ∧ c.succeeded = true :=
  Multiset.mem_filter

theorem successes_cancel (p : Op → Prop) [DecidablePred p] (s : Session δ) : (s.cancel p).successes = s.successes := by
  unfold successes cancel
  rw [Multiset.filter_add, Multiset.filter_map]
  simp [Completion.succeeded, Function.comp_def]

theorem successes_initiate (op : Op) (s : Session δ) : (s.initiate op).successes = s.successes := by
  unfold successes initiate
  cases s.closed with
  | false => rfl
  | true => exact Multiset.filter_cons_of_neg _ (by simp [Completion.succeeded])

theorem successes_stop (s : Session δ) : s.stop.successes = s.successes := by
  unfold stop
  split
  · rfl
  · rw [closeSocket, successes_cancel, cancelTimer, successes_cancel]
    rfl

theorem successes_dequeue {s : Session δ} {c : Completion} (h : c ∈ s.ready) (hc : c.succeeded = true) :
    s.successes = c ::ₘ (s.dequeue c).successes := by
  unfold successes dequeue
  conv_lhs => rw [← Multiset.cons_erase h]
  exact Multiset.filter_cons_of_pos _ hc

theorem successes_dequeue_failed {s : Session δ} {c : Completion} (h : c ∈ s.ready) (hc : c.succeeded = false) :
    (s.dequeue c).successes = s.successes := by
  unfold successes dequeue
  conv_rhs => rw [← Multiset.cons_erase h]
  exact (Multiset.filter_cons_of_neg _ (by simp [hc])).symm

variable (cfg sessionId) in
theorem successes_handleRequest (env : Env δ) (s : Session δ) : (s.handleRequest cfg sessionId env).successes = s.successes := by
  rcases handleRequest_cases cfg sessionId env s with ⟨-, _, he⟩ | ⟨b, -, he⟩
  · rw [he]
    rfl
  · rw [he, doWrite, successes_initiate]
    rfl

variable (cfg sessionId) in
theorem successes_handle (env : Env δ) (c : Completion) (s : Session δ) :
    (s.handle cfg sessionId env c).successes = s.successes := by
  have hreceive : ∀ chunk, (s.receive chunk).successes = s.successes := fun chunk => successes_cancel (· = .wait) _
  cases c with
  | read chunk =>
    rw [handle]
    rcases onRead_cases cfg sessionId env chunk s with ⟨q, b, -, he⟩ | ⟨q, b, -, he⟩ | ⟨ex, q, b, -, he⟩
    · rw [he, successes_handleRequest]
      exact hreceive chunk
    · rw [he, doRead, successes_initiate]
      exact hreceive chunk
    · rw [he]
      exact hreceive chunk
  | wrote =>
    rw [handle]
    rcases onWrite_cases s with ⟨-, he⟩ | he
    · rw [he]
      exact successes_initiate _ _
    · rw [he]
      exact successes_stop _
  | expired =>
    simp only [handle, onWait, handleTimeout]
    split
    · rfl
    · exact successes_stop s
  | failed op ec =>
    cases op with
    | read => exact successes_stop s
    | write => exact successes_stop s
    | wait => rfl

theorem Idle.successes {s : Session δ} (h : Idle s) : s.successes = 0 := by
  refine Multiset.eq_zero_of_forall_notMem ?_
  intro c hc
  obtain ⟨hready, hsucceeded⟩ := mem_successes.mp hc
  have hm := mem_outstanding s hready
  have hop := op_of_succeeded hsucceeded
  cases hop' : c.op with
  | read => exact h.1 (hop' ▸ hm)
  | write => exact h.2 (hop' ▸ hm)
  | wait => exact hop hop'

/-- Nothing has succeeded beside a read or a write under way. -/
theorem successes_of_pending {s : Session δ} {cur : Bytes} (h : Synced cfg sessionId s cur) {op : Op} (hop : op ≠ .wait)
    (hp : op ∈ s.pending) : s.successes = 0 := by
  refine Multiset.eq_zero_of_forall_notMem ?_
  intro c hc
  obtain ⟨hready, hsucceeded⟩ := mem_successes.mp hc
  have hi := idle_dequeue h hready (op_of_succeeded hsucceeded)
  have hm : op ∈ (s.dequeue c).outstanding := Multiset.mem_add.mpr (.inl hp)
  cases op with
  | read => exact hi.1 hm
  | write => exact hi.2 hm
  | wait => exact hop rfl

/-- What has succeeded is alone. -/
theorem successes_of_ready {s : Session δ} {cur : Bytes} (h : Synced cfg sessionId s cur) {c : Completion} (hc : c ∈ s.ready)
    (hs : c.succeeded = true) : s.successes = {c} := by
  rw [successes_dequeue hc hs, (idle_dequeue h hc (op_of_succeeded hs)).successes]
  rfl

/-- The bytes read and written are the same, and a write still to be done stays to be done. -/
structure SameBytes (s t : Session δ) : Prop where
  received : t.received = s.received
  written : t.written = s.written
  held : t.closed = false → s.closed = false ∧ (.write ∈ s.outstanding → .write ∈ t.outstanding)

/-- What a step is for the socket. -/
inductive OnSocket (s : Session δ) (t : Session δ) : Event δ → Prop
  | arrived (chunk : Bytes) (hne : chunk ≠ []) (hnone : s.successes = 0) (hready : t.successes = {.read chunk})
      (hsame : SameBytes s t) : OnSocket s t (.complete (.read chunk))
  | sent (hnone : s.successes = 0) (hready : t.successes = {.wrote}) (hsame : SameBytes s t) : OnSocket s t (.complete .wrote)
  | read (chunk : Bytes) (env : Env δ) (hready : s.successes = {.read chunk}) (hnone : t.successes = 0)
      (hreceived : t.received = s.received ++ [chunk]) (hclosed : t.closed = s.closed)
      (hout : t.crashed = true ∧ t.written = s.written ∨
        (∃ bytes, bytes ≠ [] ∧ t.written = s.written ++ [bytes] ∧ .write ∈ t.outstanding) ∨
        t.written = s.written ∧ ∃ reqs cur, Reads t.received.flatten reqs (cur ++ chunk) ∧
          (parse .fresh (cur ++ chunk)).1 = .returned false) :
      OnSocket s t (.run (.read chunk) env)
  | turned (env : Env δ) (hready : s.successes = {.wrote}) (hnone : t.successes = 0) (hreceived : t.received = s.received)
      (hwritten : t.written = s.written) : OnSocket s t (.run .wrote env)
  | apart {e : Event δ} (hother : ∀ c, c.succeeded = true → e ≠ .complete c ∧ ∀ env, e ≠ .run c env)
      (hready : t.successes = s.successes) (hsame : SameBytes s t) : OnSocket s t e

theorem sameBytes_complete {s : Session δ} {c : Completion} (hp : c.op ∈ s.pending) : SameBytes s (s.complete c) := by
  refine ⟨rfl, rfl, fun hopen => ⟨hopen, fun hm => ?_⟩⟩
  rwa [outstanding_complete s hp]

theorem sameBytes_stop {s t : Session δ} (hq : Quieter s t) (hc : t.closed = true) : SameBytes s t := by
  refine ⟨hq.received, hq.written, fun hopen => ?_⟩
  rw [hc] at hopen
  cases hopen

theorem successes_complete {s : Session δ} {c : Completion} (hc : c.succeeded = true) :
    (s.complete c).successes = c ::ₘ s.successes :=
  Multiset.filter_cons_of_pos s.ready hc

theorem successes_complete_failed {s : Session δ} {c : Completion} (hc : c.succeeded = false) :
    (s.complete c).successes = s.successes :=
  Multiset.filter_cons_of_neg s.ready (by simp [hc])

theorem respond_of_reply {q : HttpRequest × Env δ} {bytes : Bytes} (h : reply cfg sessionId q = some bytes) :
    respond cfg sessionId q.2 q.1 = .ok bytes := by
  unfold reply at h
  cases hr : respond cfg sessionId q.2 q.1 with
  | error e =>
    rw [hr] at h
    cases h
  | ok b =>
    rw [hr] at h
    cases h
    rfl

theorem reply_ne_nil {q : HttpRequest × Env δ} {bytes : Bytes} (h : reply cfg sessionId q = some bytes) : bytes ≠ [] := by
  obtain ⟨r, db, -, rfl⟩ := answer_of_respond (respond_of_reply h)
  rw [HttpResponse.encode_eq]
  simp [crlf]

/-- What the read handler leaves. -/
theorem onSocket_read {s : Session δ} {cur chunk : Bytes} {env : Env δ} (h : Synced cfg sessionId s cur)
    (hc : .read chunk ∈ s.ready) :
    OnSocket s ((s.dequeue (.read chunk)).onRead cfg sessionId env (.ok chunk)) (.run (.read chunk) env) := by
  have hsingle := successes_of_ready h hc rfl
  have hnone : ((s.dequeue (.read chunk)).onRead cfg sessionId env (.ok chunk)).successes = 0 := by
    have hsame := successes_handle cfg sessionId env (.read chunk) (s.dequeue (.read chunk))
    rw [handle] at hsame
    rw [hsame]
    exact (idle_dequeue h hc (by simp [Completion.op])).successes
  refine .read chunk env hsingle hnone (received_onRead env chunk _) (onRead_once cfg sessionId env chunk _).1 ?_
  have hp := (h.reading (mem_outstanding s hc)).2 chunk
  have hrd : Reads (s.received ++ [chunk]).flatten (s.handled.map (·.1)) (cur ++ chunk) := by
    simpa using reads_append h.reads chunk
  rcases onRead_cases cfg sessionId env chunk (s.dequeue (.read chunk)) with
    ⟨q, b, hq, he⟩ | ⟨q, b, hq, he⟩ | ⟨ex, q, b, hq, he⟩
  · rcases handleRequest_cases cfg sessionId env
      { (s.dequeue (.read chunk)).receive chunk with request := q, readBuffer := b } with
      ⟨-, _, he'⟩ | ⟨bytes, hb, he'⟩
    · left
      rw [he, he']
      exact ⟨rfl, rfl⟩
    · right
      left
      rw [he, he']
      refine ⟨_, ?_, rfl, ?_⟩
      · intro hnil
        exact reply_ne_nil hb (List.append_eq_nil_iff.mp hnil).2
      · rw [doWrite, outstanding_initiate]
        exact Multiset.mem_cons_self _ _
  · right
    right
    refine ⟨?_, s.handled.map (·.1), cur, ?_, ?_⟩
    · rw [he]
      rfl
    · rw [received_onRead]
      exact hrd
    · rw [← hp]
      exact congrArg Prod.fst hq
  · left
    rw [he]
    exact ⟨rfl, rfl⟩

/-- The handlers of what fails or expires leave the socket open only after an aborted wait. -/
theorem onSocket_run {s : Session δ} {c : Completion} {env : Env δ} (hc : c.succeeded = false) (hm : c ∈ s.ready) :
    OnSocket s ((s.dequeue c).handle cfg sessionId env c) (.run c env) := by
  have hsame : SameBytes s ((s.dequeue c).handle cfg sessionId env c) := by
    have hstop := sameBytes_stop ((quieter_dequeue hm).trans (quieter_stop _)) (closed_stop (s.dequeue c))
    cases c with
    | read chunk => cases hc
    | wrote => cases hc
    | expired =>
      simp only [handle, onWait, handleTimeout]
      split
      · rename_i hclosed
        exact sameBytes_stop (quieter_dequeue hm) hclosed
      · exact hstop
    | failed op ec =>
      cases op with
      | read => exact hstop
      | write => exact hstop
      | wait =>
        refine ⟨rfl, rfl, fun hopen => ⟨hopen, fun hw => ?_⟩⟩
        rw [outstanding_dequeue s hm] at hw
        rcases Multiset.mem_cons.mp hw with hw | hw
        · cases hw
        · exact hw
  refine .apart ?_ ((successes_handle cfg sessionId env c _).trans (successes_dequeue_failed hm hc)) hsame
  intro c' hc'
  refine ⟨by simp, ?_⟩
  intro env' heq
  cases heq
  rw [hc] at hc'
  cases hc'

theorem onSocket_complete {s : Session δ} {cur : Bytes} {c : Completion} (h : Synced cfg sessionId s cur)
    (hp : c.op ∈ s.pending) (hpossible : c.possible = true) : OnSocket s (s.complete c) (.complete c) := by
  have hsame := sameBytes_complete hp
  have hother : c.succeeded = false → OnSocket s (s.complete c) (.complete c) := by
    intro hc
    refine .apart ?_ (successes_complete_failed hc) hsame
    intro c' hc'
    refine ⟨?_, by simp⟩
    intro heq
    cases heq
    rw [hc] at hc'
    cases hc'
  cases c with
  | read chunk =>
    have hnone := successes_of_pending h (by simp [Completion.op]) hp
    refine .arrived chunk ?_ hnone ?_ hsame
    · simpa [Completion.possible] using hpossible
    · rw [successes_complete rfl, hnone]
      rfl
  | wrote =>
    have hnone := successes_of_pending h (by simp [Completion.op]) hp
    refine .sent hnone ?_ hsame
    rw [successes_complete rfl, hnone]
    rfl
  | expired => exact hother rfl
  | failed op ec => exact hother rfl

theorem step_onSocket {s t : Session δ} {cur : Bytes} {e : Event δ} (h : Synced cfg sessionId s cur)
    (hs : step cfg sessionId s e = some t) : OnSocket s t e := by
  cases e with
  | complete c =>
    obtain ⟨⟨hp, hpossible⟩, rfl⟩ := step_complete hs
    exact onSocket_complete h hp hpossible
  | stop =>
    obtain rfl := step_stop hs
    exact .apart (by simp) (successes_stop s) (sameBytes_stop (quieter_stop s) (closed_stop s))
  | run c env =>
    obtain ⟨hc, rfl⟩ := step_run hs
    cases c with
    | read chunk => exact onSocket_read h hc
    | wrote =>
      refine .turned env (successes_of_ready h hc rfl) ?_ (onWrite_history none _).2 ?_
      · rw [successes_handle]
        exact (idle_dequeue h hc (by simp [Completion.op])).successes
      · rcases onWrite_cases (s.dequeue .wrote) with ⟨-, he⟩ | he
        · rw [handle, he]
          rfl
        · rw [handle, he]
          exact (quieter_stop _).written
    | expired => exact onSocket_run rfl hc
    | failed op ec => exact onSocket_run rfl hc

/-! ## What is left to do -/

/-- Weights that fall along a turn: a read that succeeds, the write it leads to, its success,
    the next read. -/
def opWeight : Op → Nat
  | .read | .wait => 2
  | .write => 4

def completionWeight : Completion → Nat
  | .read _ => 5
  | .wrote => 3
  | .expired | .failed _ _ => 1

def effort (s : Session δ) : Nat := (s.pending.map opWeight).sum + (s.ready.map completionWeight).sum

theorem effort_cancel (p : Op → Prop) [DecidablePred p] (s : Session δ) : (s.cancel p).effort ≤ s.effort := by
  have hsplit : (s.pending.map opWeight).sum =
      ((s.pending.filter p).map opWeight).sum + ((s.pending.filter fun op => ¬ p op).map opWeight).sum := by
    conv_lhs => rw [← Multiset.filter_add_not p s.pending, Multiset.map_add, Multiset.sum_add]
  have hlight : ((s.pending.filter p).map fun op => completionWeight (.failed op .operationAborted)).sum ≤
      ((s.pending.filter p).map opWeight).sum := by
    refine Multiset.sum_map_le_sum_map _ _ fun op _ => ?_
    cases op <;> simp [completionWeight, opWeight]
  simp only [effort, cancel, Multiset.map_add, Multiset.sum_add, Multiset.map_map, Function.comp_def]
  omega

theorem effort_stop (s : Session δ) : s.stop.effort ≤ s.effort := by
  unfold stop
  split
  · exact le_refl _
  · exact (effort_cancel _ _).trans (effort_cancel _ _)

theorem effort_initiate (op : Op) (s : Session δ) : (s.initiate op).effort ≤ s.effort + opWeight op := by
  have hop : 1 ≤ opWeight op := by cases op <;> simp [opWeight]
  unfold initiate
  cases s.closed with
  | false =>
    show ((op ::ₘ s.pending).map opWeight).sum + (s.ready.map completionWeight).sum ≤ _
    rw [Multiset.map_cons, Multiset.sum_cons, effort]
    omega
  | true =>
    show (s.pending.map opWeight).sum + ((.failed op .other ::ₘ s.ready).map completionWeight).sum ≤ _
    rw [Multiset.map_cons, Multiset.sum_cons, completionWeight, effort]
    omega

theorem effort_complete {s : Session δ} {c : Completion} (h : c.op ∈ s.pending) :
    (s.complete c).effort + opWeight c.op = s.effort + completionWeight c := by
  have herase := congrArg (fun m => (m.map opWeight).sum) (Multiset.cons_erase h)
  simp only [Multiset.map_cons, Multiset.sum_cons] at herase
  simp only [effort, complete, Multiset.map_cons, Multiset.sum_cons]
  omega

theorem effort_dequeue {s : Session δ} {c : Completion} (h : c ∈ s.ready) :
    (s.dequeue c).effort + completionWeight c = s.effort := by
  have herase := congrArg (fun m => (m.map completionWeight).sum) (Multiset.cons_erase h)
  simp only [Multiset.map_cons, Multiset.sum_cons] at herase
  simp only [effort, dequeue]
  omega

variable (cfg sessionId) in
/-- A handler starts one operation at most, lighter than what it handles. -/
theorem effort_handle (env : Env δ) (c : Completion) (s : Session δ) :
    (s.handle cfg sessionId env c).effort + 1 ≤ s.effort + completionWeight c := by
  have hstop := effort_stop s
  cases c with
  | read chunk =>
    have hreceive : (s.receive chunk).effort ≤ s.effort := effort_cancel (· = .wait) _
    rw [handle]
    rcases onRead_cases cfg sessionId env chunk s with ⟨q, b, -, he⟩ | ⟨q, b, -, he⟩ | ⟨ex, q, b, -, he⟩
    · rw [he]
      rcases handleRequest_cases cfg sessionId env { s.receive chunk with request := q, readBuffer := b } with
        ⟨-, _, he'⟩ | ⟨bytes, -, he'⟩
      · rw [he']
        exact Nat.add_le_add hreceive (by simp [completionWeight])
      · rw [he']
        refine (Nat.succ_le_succ (effort_initiate _ _)).trans ?_
        exact Nat.add_le_add_right hreceive 5
    · rw [he]
      refine (Nat.succ_le_succ (effort_initiate _ _)).trans ?_
      exact (Nat.add_le_add_right hreceive 3).trans (Nat.add_le_add_left (by simp [completionWeight]) _)
    · rw [he]
      exact Nat.add_le_add hreceive (by simp [completionWeight])
  | wrote =>
    rw [handle]
    rcases onWrite_cases s with ⟨-, he⟩ | he
    · rw [he]
      exact Nat.succ_le_succ (effort_initiate _ _)
    · rw [he]
      exact Nat.add_le_add (effort_stop _) (by decide)
  | expired =>
    simp only [handle, onWait, handleTimeout]
    split
    · exact le_refl _
    · exact Nat.succ_le_succ hstop
  | failed op ec =>
    cases op with
    | read => exact Nat.succ_le_succ hstop
    | write => exact Nat.succ_le_succ hstop
    | wait => exact le_refl _

/-- The bytes that a step reads off the socket. -/
def Event.arriving : Event δ → Bytes
  | .complete (.read chunk) => chunk
  | _ => []

/-- Bytes that arrive are worth four each. -/
theorem effort_step {s t : Session δ} {e : Event δ} (hs : step cfg sessionId s e = some t) (he : e ≠ .stop) :
    t.effort + 1 ≤ s.effort + 4 * e.arriving.length := by
  cases e with
  | stop => exact absurd rfl he
  | run c env =>
    obtain ⟨hc, rfl⟩ := step_run hs
    have hhandle := effort_handle cfg sessionId env c (s.dequeue c)
    have hdequeue := effort_dequeue hc
    omega
  | complete c =>
    obtain ⟨⟨hp, hpossible⟩, rfl⟩ := step_complete hs
    have hcomplete := effort_complete hp
    cases c with
    | read chunk =>
      have hlen := List.length_pos_iff.mpr (show chunk ≠ [] by simpa [Completion.possible] using hpossible)
      simp only [Completion.op, opWeight, completionWeight] at hcomplete
      simp only [Event.arriving]
      omega
    | wrote =>
      simp only [Completion.op, opWeight, completionWeight] at hcomplete
      omega
    | expired =>
      simp only [Completion.op, opWeight, completionWeight] at hcomplete
      omega
    | failed op ec => cases op <;> simp only [Completion.op, opWeight, completionWeight] at hcomplete <;> omega

end Session

end BreWebServer.Server
