/-
  BreWebServer.Service.Finishing — calls in progress come to their end.

  A step of a call takes something off what the calls have to do (`work_does`); a blocked
  client that wakes unnotified adds one look at the pool. While a call has not returned,
  one of the calls can take a step (`goesOn_of_unreturned`): if all of them wait and none
  is awake, the queue is empty, so one of them holds a connection, which does not wait.

  Proved (`calls_finish`): while no call is begun and the pool is not closed, the calls in
  progress take five steps each at most, but for one for each unnotified wake; and until
  all have returned or the program has ended, there is a call that can go on.
-/

import BreWebServer.Service.Holding

namespace BreWebServer.Service.Calls

open BreWebServer.Lib BreWebServer.Cpp BreWebServer.Database

variable {pg : Postgres} {sha256 : Bytes → List UInt8} {s t : Calls}

/-! ## What is left to do -/

/-- What the calls have still to do. -/
def work (s : Calls) : Nat := (s.calls.map (·.2.work)).sum + s.clients.awake.card

/-- The calls that have not returned. -/
def unreturned (s : Calls) : Nat := s.calls.countP fun call => !call.2.isReturned

/-- Neither a new call nor `Close`. -/
def Event.goesOn : Event → Bool
  | .enter _ | .close => false
  | _ => true

def Event.isWake : Event → Bool
  | .wake _ => true
  | _ => false

theorem work_move {client : ClientId} {operation : Operation} {stage : Stage} (stage' : Stage)
    (h : s.calls[client]? = some (operation, stage)) :
    ((s.move client operation stage').calls.map (·.2.work)).sum + stage.work = (s.calls.map (·.2.work)).sum + stage'.work := by
  have hget : (s.calls.map (·.2.work))[client]? = some stage.work := by simp [h]
  have hset : (s.move client operation stage').calls.map (·.2.work) = (s.calls.map (·.2.work)).set client stage'.work :=
    List.map_set
  rw [hset]
  exact Positions.sum_set hget stage'.work

/-- What a call has left to do where it comes from, and where it gets to. -/
theorem work_arrives {client : ClientId} {operation : Operation} {awake : Multiset ClientId} {e' : Clients.Event}
    (ha : Arrives s client operation awake e') {stage' : Stage} (hwork : stage'.work ≤ 3) :
    ((s.move client operation stage').calls.map (·.2.work)).sum + awake.card + 1 ≤ s.work := by
  unfold work
  cases ha with
  | acquire hcall _ _ =>
    have := work_move stage' hcall
    have hfrom : Stage.admitted.work = 4 := rfl
    omega
  | recheck hcall hawake =>
    have := work_move stage' hcall
    have hcard := Multiset.card_erase_add_one hawake
    have hfrom : Stage.waiting.work = 3 := rfl
    omega

theorem work_advance {client : ClientId} {operation : Operation} {stage : Stage} (stage' : Stage)
    (h : s.calls[client]? = some (operation, stage)) (hwork : stage'.work + 1 ≤ stage.work) :
    ((s.move client operation stage').calls.map (·.2.work)).sum + s.clients.awake.card + 1 ≤ s.work := by
  have := work_move stage' h
  unfold work
  omega

/-- A step takes something off what there is to do; a wake adds one. -/
theorem work_does {e : Event} (hd : Does pg sha256 s e t) (hgo : e.goesOn = true) (hlive : t.clients.terminated = false) :
    t.work + (!e.isWake).toNat ≤ s.work + e.isWake.toNat := by
  have hless : t.work + 1 ≤ s.work → t.work + (!e.isWake).toNat ≤ s.work + e.isWake.toNat := by
    intro h
    cases e.isWake with
    | true =>
      show t.work + 0 ≤ s.work + 1
      omega
    | false =>
      show t.work + 1 ≤ s.work + 0
      omega
  cases hd with
  | entered operation => cases hgo
  | gaveUp hcall _ => exact hless (work_advance _ hcall (by simp [Stage.work]))
  | admitted hcall _ => exact hless (work_advance _ hcall (by decide))
  | threw ha hs => exact hless (work_arrives ha (by simp [Stage.work]))
  | blocked ha hs => exact hless (work_arrives ha (by decide))
  | took c pool ha hg hs => exact hless (work_arrives ha (by decide))
  | @woke client hm hs =>
    show _ + (client ::ₘ s.clients.awake).card + 0 ≤ s.work + 1
    rw [Multiset.card_cons]
    exact le_refl _
  | transacted fails digest skipped now hcall => exact hless (work_advance _ hcall (le_refl 3))
  | @left client operation answer health notified clients hcall hs hl =>
    obtain ⟨-, -, -, hawake⟩ := destroyed hs hl
    have := work_move (.returned answer) hcall
    have hfrom : (Stage.finished answer).work = 2 := rfl
    have hto : (Stage.returned answer).work = 0 := rfl
    refine hless ?_
    show ((s.move client operation (.returned answer)).calls.map (·.2.work)).sum + clients.awake.card + 1 ≤
      (s.calls.map (·.2.work)).sum + s.clients.awake.card
    omega
  | died _ hdead => exact Bool.noConfusion (hdead.symm.trans hlive)
  | closed hs => cases hgo

/-- A call that ends the program leaves nothing to do. -/
def left (s : Calls) : Nat := if s.clients.terminated then 0 else s.work

theorem left_step {e : Event} (hgo : e.goesOn = true) (h : step pg sha256 s e = some t) :
    t.left + (!e.isWake).toNat ≤ s.left + e.isWake.toNat := by
  have hlive := step_live h
  have hd := step_does h
  have hs : s.left = s.work := by rw [left, hlive, if_neg (by simp)]
  cases ht : t.clients.terminated with
  | false =>
    have htl : t.left = t.work := by rw [left, ht, if_neg (by simp)]
    rw [hs, htl]
    exact work_does hd hgo ht
  | true =>
    have htl : t.left = 0 := by rw [left, ht, if_pos rfl]
    have hleave : e.isWake = false ∧ ∃ (client : ClientId) (operation : Operation) (answer : Answer),
        s.calls[client]? = some (operation, .finished answer) := by
      cases hd with
      | died hcall _ => exact ⟨rfl, _, _, _, hcall⟩
      | left _ _ hl => exact Bool.noConfusion (hl.symm.trans ht)
      | closed _ => cases hgo
      | _ => exact Bool.noConfusion (hlive.symm.trans ht)
    obtain ⟨hwake, client, operation, answer, hcall⟩ := hleave
    have := work_advance (.returned answer) hcall (Nat.le_succ 1)
    rw [hs, htl, hwake]
    show 0 + 1 ≤ s.work + 0
    omega

theorem left_run {es : List Event} (hgo : ∀ e ∈ es, e.goesOn = true) (h : Machine.run (step pg sha256) s es = some t) :
    es.countP (fun e => !e.isWake) ≤ s.left + es.countP Event.isWake := by
  have hI : ∀ {s t : Calls} {e : Event}, True → e.goesOn = true → step pg sha256 s e = some t → True :=
    fun _ _ _ => trivial
  have := Machine.run_balance (fun e => !e.isWake) Event.isWake left hI (fun _ hgo hs => left_step hgo hs) es hgo trivial h
  omega

theorem work_stage (stage : Stage) :
    stage.work + (if stage.isWaiting then 1 else 0) ≤ 5 * if (!stage.isReturned) then 1 else 0 := by
  cases stage <;> simp [Stage.work, Stage.isWaiting, Stage.isReturned]

/-- What is left to do is bounded by the calls that have not returned. -/
theorem work_le (h : Manned s) : s.work ≤ 5 * s.unreturned := by
  have hawake : s.clients.awake.card ≤ s.calls.countP fun call => call.2.isWaiting := by
    rw [← Positions.card_eq_countP (p := fun call : Operation × Stage => call.2.isWaiting) (m := s.clients.blocked + s.clients.awake)]
    · rw [Multiset.card_add]
      omega
    · intro client
      rw [h.waits client, Calls.stage]
      cases s.calls[client]? with
      | none => simp
      | some call =>
        obtain ⟨operation, stage⟩ := call
        cases stage <;> simp [Stage.isWaiting]
  have hsum : ∀ calls : List (Operation × Stage), (calls.map (·.2.work)).sum + calls.countP (fun call => call.2.isWaiting) ≤
      5 * calls.countP fun call => !call.2.isReturned := by
    intro calls
    induction calls with
    | nil => simp
    | cons call calls ih =>
      have hone := work_stage call.2
      rw [List.map_cons, List.sum_cons, List.countP_cons, List.countP_cons]
      omega
  have := hsum s.calls
  unfold work unreturned
  omega

/-! ## There is a call that can go on -/

variable (pg sha256) in
/-- A call can take a step of its own. -/
def GoesOn (s : Calls) : Prop := ∃ e : Event, e.goesOn = true ∧ e.isWake = false ∧ (step pg sha256 s e).isSome = true

theorem goesOn_of_perform {e : Event} (hlive : s.clients.terminated = false) (hgo : e.goesOn = true ∧ e.isWake = false)
    (h : (s.perform pg sha256 e).isSome = true) : GoesOn pg sha256 s := by
  refine ⟨e, hgo.1, hgo.2, ?_⟩
  rw [step, hlive, if_neg (by simp)]
  exact h

theorem clients_step {clients : Clients} (hlive : clients.terminated = false) {e : Clients.Event}
    (h : (clients.perform e).isSome = true) : (clients.step e).isSome = true := by
  rw [Clients.step, hlive, if_neg (by simp)]
  exact h

/-- A guard alive can be let go. -/
theorem destroyable {clients : Clients} {client : GuardId} (hsettled : clients.assigning = []) (hg : client ∈ clients.guards) :
    ∃ notified, (clients.perform (.destroy client .alive notified)).isSome = true := by
  obtain ⟨g, hg⟩ := Option.isSome_iff_exists.mp (AList.lookup_isSome.mpr hg)
  have husable : clients.usable client = some g := by simp [Clients.usable, hsettled, hg]
  have hrelease : ∃ notified, (clients.release client g .alive notified).isSome = true := by
    have hnotify : ∃ notified, ∀ other : Clients, other.blocked = clients.blocked →
        (Clients.notifyOne notified other).isSome = true := by
      rcases Multiset.empty_or_exists_mem clients.blocked with h0 | ⟨waiting, hm⟩
      · exact ⟨none, fun other hb => by simp [Clients.notifyOne, hb, h0]⟩
      · exact ⟨some waiting, fun other hb => by simp [Clients.notifyOne, hb, hm]⟩
    obtain ⟨notified, hn⟩ := hnotify
    refine ⟨notified, ?_⟩
    unfold Clients.release
    split
    · rfl
    · split
      · rfl
      · exact hn _ rfl
      · rfl
  obtain ⟨notified, hr⟩ := hrelease
  refine ⟨notified, ?_⟩
  simp only [Clients.perform, husable, Option.bind_some, Option.isSome_map]
  exact hr

theorem goesOn_entered {client : ClientId} {operation : Operation} (hlive : s.clients.terminated = false)
    (hcall : s.calls[client]? = some (operation, .entered)) : GoesOn pg sha256 s := by
  refine goesOn_of_perform (e := .check client) hlive ⟨rfl, rfl⟩ ?_
  simp only [perform, hcall]
  split <;> rfl

theorem goesOn_arrives {client : ClientId} {operation : Operation} {awake : Multiset ClientId} {e' : Clients.Event}
    (h : Manned s) (hlive : s.clients.terminated = false) (ha : Arrives s client operation awake e') : GoesOn pg sha256 s := by
  have hguard : client ∉ s.clients.guards := fun hm => (h.arrives ha).2.1 ((h.guards client).mp hm)
  cases ha with
  | acquire hcall hb hawake =>
    refine goesOn_of_perform (e := .acquire client) hlive ⟨rfl, rfl⟩ ?_
    simp only [perform, hcall, Option.isSome_map]
    refine clients_step hlive ?_
    simp only [Clients.perform]
    rw [if_pos ⟨hb, hawake, hguard⟩]
    rfl
  | recheck hcall hawake =>
    refine goesOn_of_perform (e := .recheck client) hlive ⟨rfl, rfl⟩ ?_
    simp only [perform, hcall, Option.isSome_map]
    refine clients_step hlive ?_
    simp only [Clients.perform]
    rw [if_pos ⟨hawake, hguard⟩]
    rfl

theorem call_of_stage {client : ClientId} {stage : Stage} (h : s.stage client = some stage) :
    ∃ operation, s.calls[client]? = some (operation, stage) := by
  obtain ⟨⟨operation, stage'⟩, hcall, rfl⟩ := Option.map_eq_some_iff.mp h
  exact ⟨operation, hcall⟩

theorem goesOn_holds {client : ClientId} (h : Manned s) (hlive : s.clients.terminated = false) (hh : s.Holds client) :
    GoesOn pg sha256 s := by
  rcases hh with hstage | ⟨answer, hstage⟩
  · obtain ⟨operation, hcall⟩ := call_of_stage hstage
    refine goesOn_of_perform (e := .transact client false true 0 []) hlive ⟨rfl, rfl⟩ ?_
    simp only [perform, hcall, Option.isSome_some]
  · obtain ⟨operation, hcall⟩ := call_of_stage hstage
    obtain ⟨notified, hn⟩ := destroyable h.settled ((h.guards client).mpr (.inr ⟨answer, hstage⟩))
    refine goesOn_of_perform (e := .leave client .alive notified) hlive ⟨rfl, rfl⟩ ?_
    simp only [perform, hcall, Option.isSome_map]
    exact clients_step hlive hn

/-- While a call waits, one is awake or one holds a connection. -/
theorem attended_or_held {n : Nat} (h : Supply n s.clients) (hb : s.clients.blocked ≠ 0) (ha : s.clients.awake = 0) :
    ∃ id g, s.clients.guards.lookup id = some g ∧ g.held ≠ none := by
  cases h with
  | dormant hu hd =>
    rcases hd with hi | hc | ⟨h0, -⟩
    · exact Bool.noConfusion (hu.1.symm.trans hi)
    · exact Bool.noConfusion (hu.2.symm.trans hc)
    · exact absurd h0 hb
  | stocked hn howned hattended =>
    obtain ⟨hi, -, hle⟩ := hattended hb
    have hempty : s.clients.pool.pool = [] := by
      rw [ha, Multiset.card_zero, Nat.le_zero, List.length_eq_zero_iff] at hle
      exact hle
    have hslots := howned.slots_eq hi
    rw [hempty] at hslots
    have hcard := congrArg Multiset.card hslots
    simp only [Clients.slots, Multiset.coe_nil, Multiset.map_zero, zero_add, Multiset.card_map, Multiset.card_range] at hcard
    obtain ⟨c, hc⟩ := Multiset.card_pos_iff_exists_mem.mp (by omega : 0 < s.clients.held.card)
    obtain ⟨id, g, hg, hheld⟩ := (Registry.mem_holdings _).mp hc
    exact ⟨id, g, hg, by rw [hheld]; simp⟩

theorem goesOn_of_unreturned {n : Nat} (h : Supply n s.clients) (hm : Manned s) (hlive : s.clients.terminated = false)
    (hopen : s.unreturned ≠ 0) : GoesOn pg sha256 s := by
  obtain ⟨⟨operation, stage⟩, hmem, hstage⟩ := List.countP_pos_iff.mp (Nat.pos_of_ne_zero hopen)
  obtain ⟨client, hcall⟩ := List.getElem?_of_mem hmem
  have hs := stage_of_call hcall
  have hcount := hm.waits client
  cases stage with
  | entered => exact goesOn_entered hlive hcall
  | admitted =>
    rw [hs, if_neg (by simp), Multiset.count_add, Nat.add_eq_zero_iff] at hcount
    exact goesOn_arrives hm hlive
      (.acquire hcall (Multiset.count_eq_zero.mp hcount.1) (Multiset.count_eq_zero.mp hcount.2))
  | waiting =>
    rcases Multiset.empty_or_exists_mem s.clients.awake with ha | ⟨other, ha⟩
    · rw [ha, add_zero, if_pos hs] at hcount
      have hb : s.clients.blocked ≠ 0 := by
        intro h0
        rw [h0] at hcount
        cases hcount
      obtain ⟨id, g, hg, -⟩ := attended_or_held h hb ha
      exact goesOn_holds hm hlive ((hm.guards id).mp (AList.lookup_isSome.mp (by rw [hg]; rfl)))
    · have hpos : 0 < (s.clients.blocked + s.clients.awake).count other :=
        Multiset.count_pos.mpr (Multiset.mem_add.mpr (.inr ha))
      rw [hm.waits other] at hpos
      have hother : s.stage other = some .waiting := by
        by_contra hne
        rw [if_neg hne] at hpos
        cases hpos
      obtain ⟨operation', hcall'⟩ := call_of_stage hother
      exact goesOn_arrives hm hlive (.recheck hcall' ha)
  | holding => exact goesOn_holds hm hlive (.inl hs)
  | finished answer => exact goesOn_holds hm hlive (.inr ⟨answer, hs⟩)
  | returned answer => cases hstage

/-- Calls in progress, while no other comes and the pool is not closed. -/
theorem calls_finish {ini : IniSection} {opens : Nat → Bool} {initial : Users} {es es' : List Event}
    (h : after pg sha256 ini opens initial es = some s) (hgo : ∀ e ∈ es', e.goesOn = true)
    (ht : Machine.run (step pg sha256) s es' = some t) :
    es'.countP (fun e => !e.isWake) ≤ 5 * s.unreturned + es'.countP Event.isWake ∧
    (t.clients.terminated = true ∨ t.unreturned = 0 ∨
      ∃ e : Event, e.goesOn = true ∧ e.isWake = false ∧ (step pg sha256 t e).isSome = true) := by
  have hkept := kept_after h
  refine ⟨?_, ?_⟩
  · have hrun := left_run hgo ht
    have hleft : s.left ≤ 5 * s.unreturned := by
      cases hlive : s.clients.terminated with
      | true =>
        rw [left, hlive, if_pos rfl]
        exact Nat.zero_le _
      | false =>
        rw [left, hlive, if_neg (by simp)]
        exact work_le (hkept hlive).2
    omega
  · cases hlive : t.clients.terminated with
    | true => exact .inl rfl
    | false =>
      obtain ⟨hsupply, hmanned⟩ := Machine.run_invariant kept_step es' hkept ht hlive
      by_cases hopen : t.unreturned = 0
      · exact .inr (.inl hopen)
      · exact .inr (.inr (goesOn_of_unreturned hsupply hmanned hlive hopen))

def secondReturned : List Event := secondAnswered ++ [.leave 1 .alive none]

/-- The registration returns, and wakes the login. -/
theorem two_calls_finish : ∃ s t,
    after .singleByte (fun _ => Accounts.digestOfP) oneConnection (fun _ => true) .empty twoCalls = some s ∧
    Machine.run (step .singleByte fun _ => Accounts.digestOfP) s secondReturned = some t ∧
    s.unreturned = 2 ∧ t.unreturned = 0 ∧
    secondReturned.countP (fun e => !e.isWake) ≤ 5 * s.unreturned := by
  have hv : (after .singleByte (fun _ => Accounts.digestOfP) oneConnection (fun _ => true) .empty twoCalls).bind (fun s =>
      (Machine.run (step .singleByte fun _ => Accounts.digestOfP) s secondReturned).map fun t =>
        decide (s.unreturned = 2 ∧ t.unreturned = 0)) = some true := by decide +kernel
  obtain ⟨s, hs, hv⟩ := Option.bind_eq_some_iff.mp hv
  obtain ⟨t, ht, hd⟩ := Option.map_eq_some_iff.mp hv
  obtain ⟨htwo, hnone⟩ := of_decide_eq_true hd
  exact ⟨s, t, hs, ht, htwo, hnone, (calls_finish hs (by decide) ht).1⟩

end BreWebServer.Service.Calls
