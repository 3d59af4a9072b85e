/-
  BreWebServer.Database.Waiting — who waits for a connection.

  `Turn` says once what an event does to the queue and to the clients in `Acquire`'s wait.
  From it: a client blocks only on an empty queue (`starts_waiting`), and no wakeup is lost
  (`no_lost_wakeup`): while a client is blocked, the connections in the queue are no more
  than the clients already woken, though a client that comes later may take the connection
  meant for one of them and send it back to sleep.
-/

import BreWebServer.Database.Clients

namespace BreWebServer.Database

open BreWebServer.Cpp BreWebServer.Lib

namespace Clients

open PostgrePool

/-- The clients left awake when one of them, or one that comes, looks at the pool. -/
def Looks (s : Clients) (awake : Multiset ClientId) : Prop :=
  (s.pool.initialized = true ∧ awake = s.awake) ∨ ∃ client ∈ s.awake, awake = s.awake.erase client

inductive Turn (s : Clients) (e : Event) (t : Clients) : Prop
  | opened (connInfo : Bytes) (n : Nat) (opens : Nat → Bool) : e = .init connInfo n opens →
      t.pool = (s.pool.init connInfo n opens).2 → t.blocked = s.blocked → t.awake = s.awake → Turn s e t
  | apart : e.isInit = false → t.pool = s.pool → t.blocked = s.blocked → t.awake = s.awake → Turn s e t
  | woke (client : ClientId) : e.isInit = false → client ∈ s.blocked → t.pool = s.pool →
      t.blocked = s.blocked.erase client → t.awake = client ::ₘ s.awake → Turn s e t
  | threw : e.isInit = false → s.pool.closing = true → t.pool = s.pool → t.blocked = s.blocked → Looks s t.awake →
      Turn s e t
  | waits (client : ClientId) : e.isInit = false → s.pool.closing = false → s.pool.pool = [] → t.pool = s.pool →
      t.blocked = client ::ₘ s.blocked → Looks s t.awake → Turn s e t
  | took (c : Connection) (cs : List Connection) : e.isInit = false → s.pool.closing = false → s.pool.pool = c :: cs →
      t.pool = { s.pool with pool := cs } → t.blocked = s.blocked → Looks s t.awake → Turn s e t
  | queued (c : Connection) : e.isInit = false → s.pool.initialized = true → s.pool.closing = false →
      t.pool = { s.pool with pool := s.pool.pool ++ [c] } →
      (s.blocked = 0 ∧ t.blocked = 0 ∧ t.awake = s.awake ∨
        ∃ client ∈ s.blocked, t.blocked = s.blocked.erase client ∧ t.awake = client ::ₘ s.awake) → Turn s e t
  | closed : e = .close → s.pool.closes = true →
      t.pool = { s.pool with closing := true, initialized := false, pool := [] } → t.blocked = 0 →
      t.awake = s.awake + s.blocked → Turn s e t

variable {s t : Clients}

theorem turn_attempt {client : ClientId} {id : GuardId} {e : Event} (he : e.isInit = false) {awake : Multiset ClientId}
    (ha : Looks s awake) : Turn s e ({ s with awake }.attempt client id s.pool.look) := by
  rcases attempt_cases client id { s with awake } with ⟨hc, hr⟩ | ⟨hc, hp, hr⟩ | ⟨c, cs, hc, hp, hr⟩
  · rw [hr]
    exact .threw he hc rfl rfl ha
  · rw [hr]
    exact .waits client he hc hp rfl rfl ha
  · rw [hr]
    exact .took c cs he hc hp rfl rfl ha

theorem turn_release {id : GuardId} {g : ConnectionGuard} {health : Health} {notified : Option ClientId} {u : Clients}
    {e : Event} (he : e.isInit = false) (h : s.release id g health notified = some u) (hp : t.pool = u.pool)
    (hb : t.blocked = u.blocked) (ha : t.awake = u.awake) : Turn s e t := by
  rcases release_cases h with ⟨g', -, rfl, -⟩ | ⟨c, c', -, hi, hc, -, -, hn⟩ | ⟨c, -, -, -, rfl⟩
  · exact .apart he hp hb ha
  · rcases notifyOne_cases hn with ⟨h0, rfl⟩ | ⟨client, hm, rfl⟩
    · exact .queued c' he hi hc hp (.inl ⟨h0, hb.trans h0, ha⟩)
    · exact .queued c' he hi hc hp (.inr ⟨client, hm, hb, ha⟩)
  · exact .apart he hp hb ha

/-- Every event is one of the turns. -/
theorem step_turn {e : Event} (hs : step s e = some t) : Turn s e t := by
  cases e with
  | init connInfo n opens =>
    rw [step_init hs]
    exact .opened connInfo n opens rfl rfl rfl rfl
  | acquire client id =>
    obtain ⟨-, ⟨-, rfl⟩ | ⟨hi, rfl⟩⟩ := step_acquire hs
    · exact .apart rfl rfl rfl rfl
    · exact turn_attempt rfl (.inl ⟨hi, rfl⟩)
  | wake client =>
    obtain ⟨hm, rfl⟩ := step_wake hs
    exact .woke client rfl hm rfl rfl rfl
  | recheck client id =>
    obtain ⟨hm, -, rfl⟩ := step_recheck hs
    exact turn_attempt rfl (.inr ⟨client, hm, rfl⟩)
  | construct id =>
    rw [(step_construct hs).2]
    exact .apart rfl rfl rfl rfl
  | moveConstruct target source =>
    obtain ⟨-, g, -, rfl⟩ := step_moveConstruct hs
    exact .apart rfl rfl rfl rfl
  | moveAssign target source health notified =>
    rcases step_moveAssign hs with ⟨-, rfl⟩ | ⟨-, g, g', u, -, -, hu, rfl⟩
    · exact .apart rfl rfl rfl rfl
    · apply turn_release rfl hu <;> split <;> rfl
  | finishAssign target source =>
    obtain ⟨-, g, -, rfl⟩ := step_finishAssign hs
    exact .apart rfl rfl rfl rfl
  | destroy id health notified =>
    obtain ⟨g, u, -, hu, rfl⟩ := step_destroy hs
    apply turn_release rfl hu <;> split <;> rfl
  | close =>
    rcases step_close hs with ⟨-, rfl⟩ | ⟨hc, rfl⟩
    · exact .apart rfl rfl rfl rfl
    · exact .closed rfl hc rfl rfl rfl

/-! ## Who starts waiting -/

/-- Outside of an initialised or closing pool nobody is in the wait. -/
def Deserted (s : Clients) : Prop :=
  s.pool.initialized = true ∨ s.pool.closing = true ∨ s.blocked = 0 ∧ s.awake = 0

/-- Neither initialised nor closed. -/
def Untouched (s : Clients) : Prop := s.pool.initialized = false ∧ s.pool.closing = false

theorem looks_initialized (h : Deserted s) {awake : Multiset ClientId} (hl : Looks s awake) (hc : s.pool.closing = false) :
    s.pool.initialized = true := by
  rcases hl with ⟨hi, -⟩ | ⟨client, hm, -⟩
  · exact hi
  · rcases h with hi | hcl | ⟨-, h0⟩
    · exact hi
    · rw [hc] at hcl
      cases hcl
    · rw [h0] at hm
      exact absurd hm (Multiset.notMem_zero client)

theorem deserted_step {e : Event} (h : Deserted s) (ho : e.isInit = true → Untouched s ∨ e.OpensSucceed)
    (hs : step s e = some t) : Deserted t := by
  have keep : t.pool.initialized = s.pool.initialized → t.pool.closing = s.pool.closing →
      (s.blocked = 0 ∧ s.awake = 0 → t.blocked = 0 ∧ t.awake = 0) → Deserted t := by
    intro hi hc hw
    unfold Deserted at h ⊢
    rw [hi, hc]
    exact h.imp_right (Or.imp_right hw)
  cases step_turn hs with
  | opened connInfo n opens he hp hb ha =>
    subst he
    rcases ho rfl with ⟨hi, hc⟩ | ho
    · rcases h with h | h | h
      · rw [hi] at h
        cases h
      · rw [hc] at h
        cases h
      · exact .inr (.inr ⟨by rw [hb, h.1], by rw [ha, h.2]⟩)
    · by_cases h0 : n = 0
      · have hp' : t.pool = s.pool := by rw [hp]; simp [init, h0]
        exact keep (by rw [hp']) (by rw [hp']) (fun hw => ⟨by rw [hb, hw.1], by rw [ha, hw.2]⟩)
      · left
        rw [hp, init_opened h0 ho]
  | apart _ hp hb ha => exact keep (by rw [hp]) (by rw [hp]) (fun hw => ⟨by rw [hb, hw.1], by rw [ha, hw.2]⟩)
  | woke client _ hm hp hb ha =>
    apply keep (by rw [hp]) (by rw [hp])
    intro hw
    rw [hw.1] at hm
    exact absurd hm (Multiset.notMem_zero client)
  | threw _ hc hp _ _ => exact .inr (.inl (by rw [hp, hc]))
  | waits client _ hc _ hp _ hl => exact .inl (by rw [hp, looks_initialized h hl hc])
  | took c cs _ hc _ hp _ hl =>
    left
    rw [hp]
    exact looks_initialized h hl hc
  | queued c _ hi _ hp _ =>
    left
    rw [hp]
    exact hi
  | closed _ _ hp _ _ =>
    right
    left
    rw [hp]

theorem untouched_step {e : Event} (h : Untouched s) (he : e.isInit = false) (hs : step s e = some t) : Untouched t := by
  cases step_turn hs with
  | opened connInfo n opens hinit _ _ _ =>
    subst hinit
    cases he
  | apart _ hp _ _ => rwa [Untouched, hp]
  | woke client _ _ hp _ _ => rwa [Untouched, hp]
  | threw _ _ hp _ _ => rwa [Untouched, hp]
  | waits client _ _ _ hp _ _ => rwa [Untouched, hp]
  | took c cs _ _ _ hp _ _ =>
    rw [Untouched, hp]
    exact h
  | queued c _ _ _ hp _ =>
    rw [Untouched, hp]
    exact h
  | closed _ hc _ _ _ =>
    obtain ⟨hi, hcl⟩ := h
    simp [closes, hi, hcl] at hc

/-- A client starts waiting on the empty queue of an initialised pool only. -/
theorem starts_waiting {e : Event} (h : Deserted s) (hs : step s e = some t)
    (hb : Multiset.card s.blocked < Multiset.card t.blocked) : s.pool.pool = [] ∧ s.pool.initialized = true := by
  have hle : t.blocked ≤ s.blocked → False := fun hle => absurd (Multiset.card_le_card hle) (by omega)
  cases step_turn hs with
  | opened _ _ _ _ _ hb' _ => exact absurd hb'.le hle
  | apart _ _ hb' _ => exact absurd hb'.le hle
  | woke client _ _ _ hb' _ => exact absurd (hb'.le.trans (Multiset.erase_le client _)) hle
  | threw _ _ _ hb' _ => exact absurd hb'.le hle
  | waits client _ hc hq _ _ hl => exact ⟨hq, looks_initialized h hl hc⟩
  | took _ _ _ _ _ _ hb' _ => exact absurd hb'.le hle
  | queued c _ _ _ _ hn =>
    rcases hn with ⟨-, hb', -⟩ | ⟨client, -, hb', -⟩
    · exact absurd (by rw [hb']; exact Multiset.zero_le _) hle
    · exact absurd (hb'.le.trans (Multiset.erase_le client _)) hle
  | closed _ _ _ hb' _ => exact absurd (by rw [hb']; exact Multiset.zero_le _) hle

/-! ## No lost wakeup -/

/-- Behind a blocked client, the connections in the queue are no more than the clients on
    their way to take one. -/
def Attended (s : Clients) : Prop :=
  s.blocked ≠ 0 → s.pool.initialized = true ∧ s.pool.closing = false ∧ s.pool.pool.length ≤ Multiset.card s.awake

theorem card_looks {awake : Multiset ClientId} (h : Looks s awake) :
    Multiset.card s.awake ≤ Multiset.card awake + 1 := by
  rcases h with ⟨-, rfl⟩ | ⟨client, hm, rfl⟩
  · omega
  · rw [Multiset.card_erase_add_one hm]

theorem attended_step {e : Event} (h : Attended s) (hd : Deserted s) (ho : e.isInit = true → Untouched s)
    (hs : step s e = some t) : Attended t := by
  intro ht
  cases step_turn hs with
  | opened connInfo n opens he _ hb _ =>
    subst he
    have := (h (hb ▸ ht)).1
    rw [(ho rfl).1] at this
    cases this
  | apart _ hp hb ha =>
    rw [hp, ha]
    exact h (hb ▸ ht)
  | woke client _ hm hp hb ha =>
    obtain ⟨hi, hc, hl⟩ := h (by intro h0; rw [h0] at hm; exact absurd hm (Multiset.notMem_zero client))
    rw [hp, ha, Multiset.card_cons]
    exact ⟨hi, hc, by omega⟩
  | threw _ hcl _ hb _ =>
    have := (h (hb ▸ ht)).2.1
    rw [hcl] at this
    cases this
  | waits client _ hc hq hp _ hl =>
    rw [hp, hq]
    exact ⟨looks_initialized hd hl hc, hc, Nat.zero_le _⟩
  | took c cs _ hc hq hp hb hl =>
    -- One connection less, and one client at most less on its way.
    obtain ⟨hi, -, hle⟩ := h (hb ▸ ht)
    have hcard := card_looks hl
    rw [hq, List.length_cons] at hle
    rw [hp]
    exact ⟨hi, hc, by show cs.length ≤ _; omega⟩
  | queued c _ hi hc hp hn =>
    rcases hn with ⟨-, hb, -⟩ | ⟨client, hm, hb, ha⟩
    · exact absurd hb ht
    · obtain ⟨-, -, hle⟩ := h (by intro h0; rw [h0] at hm; exact absurd hm (Multiset.notMem_zero client))
      rw [hp, ha, Multiset.card_cons]
      exact ⟨hi, hc, by rw [List.length_append, List.length_singleton]; omega⟩
  | closed _ _ _ hb _ => exact absurd hb ht

/-- Before the one `Init` of a run the pool is untouched. -/
theorem untouched_at_init {es : List Event} (hone : es.countP Event.isInit ≤ 1) {u : Clients} {e : Event}
    (ht : Machine.Takes step new es u e) (he : e.isInit = true) : Untouched u := by
  obtain ⟨pre, post, rfl, hrun⟩ := ht
  rw [List.countP_append, List.countP_cons_of_pos he] at hone
  have hnone : ∀ e ∈ pre, e.isInit = false := by
    have h0 : pre.countP Event.isInit = 0 := by omega
    intro e hm
    simpa using List.countP_eq_zero.mp h0 e hm
  exact Machine.run_invariant_on untouched_step pre hnone ⟨rfl, rfl⟩ hrun

theorem no_lost_wakeup {es : List Event} {s : Clients} (h : after es = some s) (hone : es.countP Event.isInit ≤ 1)
    (hb : s.blocked ≠ 0) : s.pool.pool.length ≤ Multiset.card s.awake ∧ s.pool.closing = false := by
  have hstep : ∀ {s : Clients} {e : Event} {t : Clients}, Attended s ∧ Deserted s → (e.isInit = true → Untouched s) →
      step s e = some t → Attended t ∧ Deserted t :=
    fun hs ho ht => ⟨attended_step hs.1 hs.2 ho ht, deserted_step hs.2 (fun he => .inl (ho he)) ht⟩
  have hnew : Attended new ∧ Deserted new := ⟨fun h => absurd rfl h, .inr (.inr ⟨rfl, rfl⟩)⟩
  have hall := (Machine.visits_invariant hstep hnew (fun t e ht he => untouched_at_init hone ht he)
    ⟨es, [], by simp, h⟩).1 hb
  exact ⟨hall.2.2, hall.2.1⟩

/-- One connection, two clients: the second is blocked and notified, a third takes the
    connection, and the second sleeps again. -/
def overtaken : List Event :=
  [.init [] 1 fun _ => true, .acquire 1 1, .acquire 2 2, .destroy 1 .alive (some 2), .acquire 3 3, .recheck 2 2]

theorem overtaken_sleeps_attended : ∃ s, after overtaken = some s ∧ s.blocked = {2} ∧
    s.pool.pool.length ≤ Multiset.card s.awake ∧ s.pool.closing = false := by
  have hv : (after overtaken).map (·.blocked) = some {2} := by decide
  obtain ⟨s, hs, hb⟩ := Option.map_eq_some_iff.mp hv
  exact ⟨s, hs, hb, no_lost_wakeup hs (by decide) (by rw [hb]; simp)⟩

end Clients

end BreWebServer.Database
