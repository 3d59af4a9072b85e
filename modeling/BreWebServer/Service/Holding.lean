/-
  BreWebServer.Service.Holding — which calls hold a connection, and which wait for one.

  Every step of a call that touches the pool is one of the pool's clients', so what holds of
  these holds under the calls (`supply_does`); and where a call stands says whether it waits
  and whether it has a guard (`manned_does`).

  Proved (`connections_conserved`): while the pool is open, its connections are in the queue
  or held by the calls between `Acquire` and their return, a connection each. None is lost,
  whatever the transactions throw.
-/

import BreWebServer.Database.Opening
import BreWebServer.Database.Ownership
import BreWebServer.Service.Calls

namespace BreWebServer.Service.Calls

open BreWebServer.Lib BreWebServer.Cpp BreWebServer.Database

variable {pg : Postgres} {sha256 : Bytes → List UInt8} {s t : Calls}

/-! ## The pool under the calls -/

/-- The connections are accounted for and no wakeup is lost, or the pool was never opened. -/
inductive Supply (n : Nat) (s : Clients) : Prop
  | stocked : n ≠ 0 → Clients.Owned n s → Clients.Attended s → Supply n s
  | dormant : Clients.Untouched s → Clients.Deserted s → Supply n s

theorem supply_step {n : Nat} {s t : Clients} {e : Clients.Event} (h : Supply n s) (he : e.isInit = false)
    (ho : e.OpensSucceed) (hs : s.step e = some t) : Supply n t := by
  have hinit : ∀ {p : Prop}, e.isInit = true → p := by
    intro p hi
    rw [he] at hi
    cases hi
  cases h with
  | stocked hn howned hattended =>
    refine .stocked hn (Clients.owned_step hn howned ⟨ho, ?_⟩ hs) (Clients.attended_step hattended howned.deserted hinit hs)
    intro connInfo m opens hopen
    rw [hopen] at he
    cases he
  | dormant hu hd => exact .dormant (Clients.untouched_step hu he hs) (Clients.deserted_step hd hinit hs)

theorem supply_new (ini : IniSection) (opens : Nat → Bool) :
    Supply (dbPoolSize ini) { Clients.new with pool := initDatabase true ini opens .new } := by
  have hidle : Supply (dbPoolSize ini) Clients.new := .dormant ⟨rfl, rfl⟩ (.inr (.inr ⟨rfl, rfl⟩))
  unfold initDatabase
  split
  · by_cases hn : dbPoolSize ini = 0
    · rw [PostgrePool.init, if_pos hn]
      exact hidle
    by_cases hf : ∃ i < dbPoolSize ini, opens i = false
    · rw [PostgrePool.init_failed hn hf]
      exact .dormant ⟨rfl, rfl⟩ (.inr (.inr ⟨rfl, rfl⟩))
    · have hall : ∀ i < dbPoolSize ini, opens i = true := by
        intro i hi
        by_contra hc
        exact hf ⟨i, hi, by simpa using hc⟩
      have hs : Clients.new.step (.init (DbConfig.load ini).connInfo (dbPoolSize ini) opens) = some _ := rfl
      have hone : ∀ connInfo m opens', Clients.Event.init (DbConfig.load ini).connInfo (dbPoolSize ini) opens =
          .init connInfo m opens' → Clients.Untouched .new ∧ m = dbPoolSize ini := by
        intro connInfo m opens' he
        cases he
        exact ⟨⟨rfl, rfl⟩, rfl⟩
      have ho : (Clients.Event.init (DbConfig.load ini).connInfo (dbPoolSize ini) opens).OpensSucceed := hall
      exact .stocked hn (Clients.owned_step hn (Clients.owned_new _) ⟨ho, hone⟩ hs) fun hb => absurd rfl hb
  · exact hidle

theorem giveBack_refused (p : PostgrePool) (c : Option Connection) :
    p.giveBack c .refused = .threw ∨ p.giveBack c .refused = p.giveBack c .alive := by
  cases c with
  | none => exact .inr rfl
  | some c =>
    unfold PostgrePool.giveBack
    by_cases hd : p.initialized = false ∨ p.closing = true
    · right
      simp only [hd, if_true]
    · left
      simp only [hd, if_false]

/-- A guard whose connection is not reopened is let go as with a living connection, unless
    the program ends. -/
theorem step_refused {s t : Clients} {client : GuardId} {notified : Option ClientId}
    (hs : s.step (.destroy client .refused notified) = some t) (hlive : t.terminated = false) :
    s.step (.destroy client .alive notified) = some t := by
  obtain ⟨hs₀, hs⟩ := Clients.step_perform hs
  rw [Clients.step, hs₀, if_neg (by simp)]
  simp only [Clients.perform] at hs ⊢
  obtain ⟨g, hg, hs⟩ := Option.bind_eq_some_iff.mp hs
  obtain ⟨u, hu, rfl⟩ := Option.map_eq_some_iff.mp hs
  have hlive : u.terminated = false := by
    cases hd : u.terminated with
    | false => rfl
    | true => simp [hd] at hlive
  have hu' : s.release client g .alive notified = some u := by
    unfold Clients.release at hu ⊢
    split
    · rename_i hn
      rw [if_pos hn] at hu
      exact hu
    · rename_i hn
      rw [if_neg hn] at hu
      rcases giveBack_refused s.pool g.connection with hr | hr
      · rw [hr] at hu
        cases hu
        cases hlive
      · rwa [← hr]
  rw [hg, Option.bind_some, hu']
  rfl

/-- Every step keeps the pool supplied. -/
theorem supply_does {n : Nat} {e : Event} (h : Supply n s.clients) (hd : Does pg sha256 s e t)
    (hlive : t.clients.terminated = false) : Supply n t.clients := by
  have harrives : ∀ {client : ClientId} {operation : Operation} {awake : Multiset ClientId} {e' : Clients.Event},
      Arrives s client operation awake e' → e'.isInit = false ∧ e'.OpensSucceed := by
    intro client operation awake e' ha
    cases ha with
    | acquire => exact ⟨rfl, trivial⟩
    | recheck => exact ⟨rfl, trivial⟩
  cases hd with
  | entered operation => exact h
  | gaveUp => exact h
  | admitted => exact h
  | threw ha hs => exact supply_step h (harrives ha).1 (harrives ha).2 hs
  | blocked ha hs => exact supply_step h (harrives ha).1 (harrives ha).2 hs
  | took c pool ha _ hs => exact supply_step h (harrives ha).1 (harrives ha).2 hs
  | @woke client _ hs => exact supply_step (e := .wake client) h rfl trivial hs
  | transacted fails digest skipped now => exact h
  | @left client operation answer health notified clients hcall hs hl =>
    cases health with
    | refused => exact supply_step h rfl (by simp [Clients.Event.OpensSucceed]) (step_refused hs hl)
    | alive => exact supply_step h rfl (by simp [Clients.Event.OpensSucceed]) hs
    | reopened => exact supply_step h rfl (by simp [Clients.Event.OpensSucceed]) hs
  | died _ hdead => exact Bool.noConfusion (hdead.symm.trans hlive)
  | closed hs => exact supply_step (e := .close) h rfl trivial hs

/-! ## Who is where -/

def stage (s : Calls) (client : ClientId) : Option Stage := s.calls[client]?.map (·.2)

def Holds (s : Calls) (client : ClientId) : Prop :=
  s.stage client = some .holding ∨ ∃ answer, s.stage client = some (.finished answer)

/-- The calls in the wait are those of the condition variable, and the guards alive are
    those of the calls that hold a connection. -/
structure Manned (s : Calls) : Prop where
  waits : ∀ client, (s.clients.blocked + s.clients.awake).count client = if s.stage client = some .waiting then 1 else 0
  guards : ∀ client, client ∈ s.clients.guards ↔ s.Holds client
  held : ∀ client g, s.clients.guards.lookup client = some g → g.held ≠ none
  settled : s.clients.assigning = []

theorem stage_of_call {client : ClientId} {operation : Operation} {stage : Stage}
    (h : s.calls[client]? = some (operation, stage)) : s.stage client = some stage := by
  rw [Calls.stage, h]
  rfl

theorem stage_move {client : ClientId} {operation : Operation} {stage : Stage} {call : Operation × Stage}
    (h : s.calls[client]? = some call) (other : ClientId) :
    (s.move client operation stage).stage other = if client = other then some stage else s.stage other := by
  unfold Calls.stage move
  rw [Positions.getElem?_set_iff h]
  split
  · rfl
  · rfl

theorem stage_enter (operation : Operation) (s : Calls) (other : ClientId) :
    ({ s with calls := s.calls ++ [(operation, .entered)] } : Calls).stage other =
      if other = s.calls.length then some .entered else s.stage other := by
  unfold Calls.stage
  rw [Positions.getElem?_concat_iff]
  split
  · rfl
  · rfl

theorem stage_new_call (s : Calls) : s.stage s.calls.length = none := by simp [Calls.stage]

/-- A call that moves between stages in which it neither waits nor holds. -/
theorem manned_move {client : ClientId} {stage stage' : Stage} (h : Manned s) (hc : t.clients = s.clients)
    (hs : s.stage client = some stage) (ht : ∀ other, t.stage other = if client = other then some stage' else s.stage other)
    (hw : stage = .waiting ↔ stage' = .waiting)
    (hh : (stage = .holding ∨ ∃ answer, stage = .finished answer) ↔ (stage' = .holding ∨ ∃ answer, stage' = .finished answer)) :
    Manned t := by
  refine ⟨?_, ?_, by rw [hc]; exact h.held, by rw [hc]; exact h.settled⟩
  · intro other
    rw [hc, h.waits other, ht other]
    by_cases he : client = other
    · subst he
      simp only [hs, if_true, Option.some.injEq, hw]
    · rw [if_neg he]
  · intro other
    rw [hc, h.guards other, Holds, Holds, ht other]
    by_cases he : client = other
    · subst he
      simp only [hs, if_true, Option.some.injEq, hh]
    · rw [if_neg he]

/-- Those that arrive leave the wait, and hold nothing. -/
theorem Manned.arrives {client : ClientId} {operation : Operation} {awake : Multiset ClientId} {e' : Clients.Event}
    (h : Manned s) (ha : Arrives s client operation awake e') :
    (∃ call, s.calls[client]? = some call) ∧ ¬ s.Holds client ∧
    ∀ other, (s.clients.blocked + awake).count other = if client ≠ other ∧ s.stage other = some .waiting then 1 else 0 := by
  cases ha with
  | acquire hcall hb hawake =>
    have hstage := stage_of_call hcall
    refine ⟨⟨_, hcall⟩, by simp [Holds, hstage], ?_⟩
    intro other
    rw [h.waits other]
    by_cases he : client = other
    · subst he
      simp [hstage]
    · simp [he]
  | recheck hcall hawake =>
    have hstage := stage_of_call hcall
    refine ⟨⟨_, hcall⟩, by simp [Holds, hstage], ?_⟩
    intro other
    have hcount := h.waits other
    rw [Multiset.count_add] at hcount ⊢
    by_cases he : client = other
    · subst he
      have hpos := Multiset.count_pos.mpr hawake
      rw [if_pos hstage] at hcount
      rw [Multiset.count_erase_self, if_neg (by simp)]
      omega
    · rw [Multiset.count_erase_of_ne (Ne.symm he), hcount]
      simp [he]

/-- A call that arrives and gets no connection. -/
theorem manned_arrives {client : ClientId} {operation : Operation} {awake : Multiset ClientId} {e' : Clients.Event}
    {stage' : Stage} (h : Manned s) (ha : Arrives s client operation awake e')
    (ht : ∀ other, t.stage other = if client = other then some stage' else s.stage other)
    (hno : stage' ≠ .holding ∧ ∀ answer, stage' ≠ .finished answer)
    (hw : t.clients.blocked + t.clients.awake = (if stage' = .waiting then {client} else 0) + (s.clients.blocked + awake))
    (hg : t.clients.guards = s.clients.guards) (hsettled : t.clients.assigning = s.clients.assigning) : Manned t := by
  obtain ⟨-, hnone, hcount⟩ := h.arrives ha
  refine ⟨?_, ?_, by rw [hg]; exact h.held, hsettled.trans h.settled⟩
  · intro other
    rw [hw, Multiset.count_add, hcount other, ht other]
    by_cases he : client = other
    · subst he
      by_cases hwait : stage' = .waiting <;> simp [hwait]
    · by_cases hwait : stage' = .waiting <;> simp [hwait, he, Ne.symm he]
  · intro other
    rw [hg, h.guards other]
    unfold Holds
    rw [ht other]
    by_cases he : client = other
    · subst he
      rw [if_pos rfl]
      exact iff_of_false hnone (by simp [hno])
    · rw [if_neg he]

theorem manned_took {client : ClientId} {operation : Operation} {awake : Multiset ClientId} {e' : Clients.Event}
    {guard : ConnectionGuard} (h : Manned s) (ha : Arrives s client operation awake e')
    (ht : ∀ other, t.stage other = if client = other then some .holding else s.stage other)
    (hw : t.clients.blocked + t.clients.awake = s.clients.blocked + awake)
    (hg : t.clients.guards = s.clients.guards.insert client guard) (hheld : guard.held ≠ none)
    (hsettled : t.clients.assigning = s.clients.assigning) : Manned t := by
  obtain ⟨-, -, hcount⟩ := h.arrives ha
  refine ⟨?_, ?_, ?_, hsettled.trans h.settled⟩
  · intro other
    rw [hw, hcount other, ht other]
    by_cases he : client = other
    · simp [he]
    · simp [he]
  · intro other
    rw [hg, AList.mem_insert, h.guards other]
    unfold Holds
    rw [ht other]
    by_cases he : client = other
    · simp [he]
    · simp [he, Ne.symm he]
  · intro other g hother
    rw [hg] at hother
    by_cases he : other = client
    · subst he
      rw [AList.lookup_insert] at hother
      cases hother
      exact hheld
    · rw [AList.lookup_insert_ne he] at hother
      exact h.held other g hother

/-- A call that has had its connection and lets it go. -/
theorem manned_left {client : ClientId} {answer : Answer} (h : Manned s) (hs : s.stage client = some (.finished answer))
    (ht : ∀ other, t.stage other = if client = other then some (.returned answer) else s.stage other)
    (hw : t.clients.blocked + t.clients.awake = s.clients.blocked + s.clients.awake)
    (hg : ∀ id, t.clients.guards.lookup id = if client = id then none else s.clients.guards.lookup id)
    (hsettled : t.clients.assigning = s.clients.assigning) : Manned t := by
  refine ⟨?_, ?_, ?_, hsettled.trans h.settled⟩
  · intro other
    rw [hw, h.waits other, ht other]
    by_cases he : client = other
    · subst he
      simp [hs]
    · rw [if_neg he]
  · intro other
    rw [← AList.lookup_isSome, hg other]
    unfold Holds
    rw [ht other]
    by_cases he : client = other
    · simp [he]
    · rw [if_neg he, if_neg he, AList.lookup_isSome]
      exact h.guards other
  · intro other g hother
    rw [hg other] at hother
    split at hother
    · cases hother
    · exact h.held other g hother

/-- A client that wakes is still in the wait. -/
theorem waiters_wakeUp {clients : Clients} {client : ClientId} (h : client ∈ clients.blocked) :
    (clients.wakeUp client).blocked + (clients.wakeUp client).awake = clients.blocked + clients.awake := by
  simp only [Clients.wakeUp]
  rw [Multiset.add_cons, ← Multiset.cons_add, Multiset.cons_erase h]

/-- A guard let go is gone, and its connection wakes one client at most. -/
theorem destroyed {clients u : Clients} {client : GuardId} {health : PostgrePool.Health} {notified : Option ClientId}
    (hs : clients.step (.destroy client health notified) = some u) (hlive : u.terminated = false) :
    (∀ id, u.guards.lookup id = if client = id then none else clients.guards.lookup id) ∧
    u.assigning = clients.assigning ∧ u.blocked + u.awake = clients.blocked + clients.awake ∧
    u.awake.card ≤ clients.awake.card + 1 := by
  obtain ⟨g, v, -, hv, rfl⟩ := Clients.step_destroy hs
  have hlive : v.terminated = false := by
    cases hd : v.terminated with
    | false => rfl
    | true => simp [hd] at hlive
  have herase : ∀ g' : ConnectionGuard, ∀ id, ((clients.guards.insert client g').erase client).lookup id =
      if client = id then none else clients.guards.lookup id := by
    intro g' id
    split
    · rename_i he
      subst he
      exact AList.lookup_erase client _
    · rename_i hne
      rw [AList.lookup_erase_ne (Ne.symm hne), AList.lookup_insert_ne (Ne.symm hne)]
  rw [if_neg (by simp [hlive])]
  rcases Clients.release_cases hv with ⟨g', -, rfl, -⟩ | ⟨c, c', -, -, -, -, -, hn⟩ | ⟨c, -, -, -, rfl⟩
  · exact ⟨herase g', rfl, rfl, Nat.le_succ _⟩
  · rcases Clients.notifyOne_cases hn with ⟨-, rfl⟩ | ⟨other, hm, rfl⟩
    · exact ⟨herase g.vacated, rfl, rfl, Nat.le_succ _⟩
    · refine ⟨herase g.vacated, rfl, ?_, le_of_eq (Multiset.card_cons _ _)⟩
      exact waiters_wakeUp hm
  · cases hlive

theorem manned_does {e : Event} (h : Manned s) (hd : Does pg sha256 s e t) (hlive : t.clients.terminated = false) : Manned t := by
  cases hd with
  | entered operation =>
    have hnew := stage_new_call s
    refine ⟨?_, ?_, h.held, h.settled⟩
    · intro other
      rw [stage_enter operation s other]
      by_cases he : other = s.calls.length
      · subst he
        simpa [hnew] using h.waits s.calls.length
      · rw [if_neg he]
        exact h.waits other
    · intro other
      rw [Holds, stage_enter operation s other]
      by_cases he : other = s.calls.length
      · subst he
        simpa [Holds, hnew] using h.guards s.calls.length
      · rw [if_neg he]
        exact h.guards other
  | gaveUp hcall _ => exact manned_move h rfl (stage_of_call hcall) (stage_move hcall) (by simp) (by simp)
  | admitted hcall _ => exact manned_move h rfl (stage_of_call hcall) (stage_move hcall) (by simp) (by simp)
  | threw ha hs =>
    obtain ⟨⟨call, hcall⟩, -, -⟩ := h.arrives ha
    exact manned_arrives h ha (stage_move hcall) ⟨by simp, by simp⟩ (by simp [giveUp, move]) rfl rfl
  | blocked ha hs =>
    obtain ⟨⟨call, hcall⟩, -, -⟩ := h.arrives ha
    exact manned_arrives h ha (stage_move hcall) ⟨by simp, by simp⟩ (by simp [move]) rfl rfl
  | took c pool ha hg hs =>
    obtain ⟨⟨call, hcall⟩, -, -⟩ := h.arrives ha
    exact manned_took h ha (stage_move hcall) rfl rfl (by simp [ConnectionGuard.held]) rfl
  | @woke client hm hs =>
    refine ⟨?_, h.guards, h.held, h.settled⟩
    intro other
    rw [waiters_wakeUp hm]
    exact h.waits other
  | transacted fails digest skipped now hcall =>
    exact manned_move h rfl (stage_of_call hcall) (stage_move hcall) (by simp) (by simp)
  | @left client operation answer health notified clients hcall hs hl =>
    obtain ⟨hg, hassigning, hw, -⟩ := destroyed hs hl
    exact manned_left h (stage_of_call hcall) (stage_move hcall) hw hg hassigning
  | died _ hdead => exact Bool.noConfusion (hdead.symm.trans hlive)
  | closed hs =>
    rcases Clients.step_close hs with ⟨-, rfl⟩ | ⟨-, rfl⟩
    · exact h
    · refine ⟨?_, h.guards, h.held, h.settled⟩
      intro other
      show (0 + (s.clients.awake + s.clients.blocked)).count other = _
      rw [zero_add, add_comm]
      exact h.waits other

theorem step_live {e : Event} (h : step pg sha256 s e = some t) : s.clients.terminated = false := by
  cases hd : s.clients.terminated with
  | false => rfl
  | true => simp [step, hd] at h

theorem manned_new (pool : PostgrePool) (users : Users) : Manned (new pool users) :=
  ⟨by simp [new, Calls.stage, Clients.new], by simp [new, Holds, Calls.stage, Clients.new], by simp [new, Clients.new], rfl⟩

/-- Until the program ends. -/
def Kept (n : Nat) (s : Calls) : Prop := s.clients.terminated = false → Supply n s.clients ∧ Manned s

theorem kept_step {n : Nat} {e : Event} (h : Kept n s) (hs : step pg sha256 s e = some t) : Kept n t := by
  intro hlive
  obtain ⟨hsupply, hmanned⟩ := h (step_live hs)
  exact ⟨supply_does hsupply (step_does hs) hlive, manned_does hmanned (step_does hs) hlive⟩

theorem kept_after {ini : IniSection} {opens : Nat → Bool} {initial : Users} {es : List Event}
    (h : after pg sha256 ini opens initial es = some s) : Kept (dbPoolSize ini) s :=
  Machine.run_invariant kept_step es (fun _ => ⟨supply_new ini opens, manned_new _ _⟩) h

/-! ## What the calls hold -/

/-- The calls that hold a connection. -/
def holders (s : Calls) : Nat := s.calls.countP fun call => call.2.isHolding

/-- The connection that the call's guard holds. -/
def connection (s : Calls) (client : ClientId) : Option Connection :=
  (s.clients.guards.lookup client).bind ConnectionGuard.held

theorem holds_iff (s : Calls) (client : ClientId) : s.Holds client ↔ (s.stage client).any Stage.isHolding = true := by
  unfold Holds
  cases s.stage client with
  | none => simp
  | some stage => cases stage <;> simp [Stage.isHolding]

theorem connection_isSome (h : Manned s) (client : ClientId) :
    (s.connection client).isSome = (s.stage client).any Stage.isHolding := by
  rw [Bool.eq_iff_iff, ← holds_iff, ← h.guards client, ← AList.lookup_isSome, connection]
  cases hg : s.clients.guards.lookup client with
  | none => simp
  | some g => simp [Option.isSome_iff_ne_none, h.held client g hg]

theorem holders_eq (h : Manned s) : s.clients.held.card = s.holders := by
  have hkeys : (s.clients.guards.keys : Multiset Nat).card = s.holders := by
    refine Positions.card_eq_countP s.calls ?_
    intro client
    rw [Multiset.coe_count, s.clients.guards.keys_nodup.count]
    refine if_congr ?_ rfl rfl
    rw [← AList.mem_keys, h.guards client, holds_iff, Calls.stage, Option.any_map]
  rw [← hkeys, Multiset.coe_card]
  refine Registry.card_holdings _ ?_
  intro client g hg
  exact Option.isSome_iff_ne_none.mpr (h.held client g hg)

/-- Where the connections of an open pool are. -/
theorem connections_conserved {ini : IniSection} {opens : Nat → Bool} {initial : Users} {es : List Event}
    (h : after pg sha256 ini opens initial es = some s) (hlive : s.clients.terminated = false)
    (hi : s.clients.pool.initialized = true) :
    s.clients.pool.pool.length + s.holders = dbPoolSize ini ∧
    (∀ client, (s.connection client).isSome = (s.stage client).any Stage.isHolding) ∧
    ∀ client client' c c', s.connection client = some c → s.connection client' = some c' → c.slot = c'.slot →
      client = client' := by
  obtain ⟨hsupply, hmanned⟩ := kept_after h hlive
  cases hsupply with
  | dormant hu _ => exact Bool.noConfusion (hu.1.symm.trans hi)
  | stocked hn howned _ =>
    have hslots := howned.slots_eq hi
    refine ⟨?_, connection_isSome hmanned, ?_⟩
    · have hcard := congrArg Multiset.card hslots
      simp only [Clients.slots, Multiset.card_add, Multiset.card_map, Multiset.coe_card, Multiset.card_range] at hcard
      rw [← holders_eq hmanned]
      exact hcard
    · intro client client' c c' hc hc' hslot
      obtain ⟨g, hg, hheld⟩ := Option.bind_eq_some_iff.mp hc
      obtain ⟨g', hg', hheld'⟩ := Option.bind_eq_some_iff.mp hc'
      have hnodup : (Clients.slots s.clients.held).Nodup := by
        refine Multiset.nodup_of_le ?_ (Multiset.nodup_range (dbPoolSize ini))
        rw [← hslots]
        exact Multiset.le_add_left _ _
      exact Registry.holdings_apart _ hnodup hg hheld hg' hheld' hslot

/-- The connection is the registration's. -/
theorem registration_holds : ∃ s,
    after .singleByte (fun _ => Accounts.digestOfP) oneConnection (fun _ => true) .empty twoCalls = some s ∧
    s.holders = 1 ∧ s.clients.pool.pool.length + s.holders = dbPoolSize oneConnection := by
  have hv : (after .singleByte (fun _ => Accounts.digestOfP) oneConnection (fun _ => true) .empty twoCalls).map (fun s =>
      decide (s.clients.terminated = false ∧ s.clients.pool.initialized = true ∧ s.holders = 1)) = some true := by
    decide +kernel
  obtain ⟨s, hs, hd⟩ := Option.map_eq_some_iff.mp hv
  obtain ⟨hlive, hi, hone⟩ := of_decide_eq_true hd
  exact ⟨s, hs, hone, (connections_conserved hs hlive hi).1⟩

end BreWebServer.Service.Calls
