/-
  BreWebServer.Server.IdleTime — the session's timer against a clock.

  `Session`'s machine has no time in it. Here the same events happen at instants: the
  clock starts at `Start`, `expires_after` sets the timer's expiry, and a wait completes
  with success no sooner than that. The executor is as slow as it likes.

  The handler of a successful read calls `expires_after`, which cannot take back an expiry
  already queued, and the timer's handler looks at its error code alone. A run in which no
  read handler overtakes a queued expiry never closes a session before `_timeoutDuration`
  has passed since the last of them; after one that does, it can (`never_early_iff`,
  `busy_session_timed_out`).
-/

import BreWebServer.Server.Shutdown

namespace BreWebServer.Server

open BreWebServer.Lib BreWebServer.Cpp BreWebServer.Http BreWebServer.Service

/-- `_timeoutDuration`, in nanoseconds. -/
def timeoutDuration : Nat := 30 * 10 ^ 9

structure Timed (δ : Type) where
  session : Session δ
  now : Nat
  /-- When the timer expires. -/
  expiry : Nat
  /-- When the last handler of a successful read ran, or `Start`. -/
  active : Nat

namespace Timed

variable {δ : Type}

inductive Event (δ : Type) where
  | pass (duration : Nat)
  | act (e : Session.Event δ)

def start : Timed δ := ⟨Session.new.start, 0, timeoutDuration, 0⟩

/-- A wait does not complete with success before the timer expires. -/
def due (s : Timed δ) : Session.Event δ → Bool
  | .complete .expired => s.expiry ≤ s.now
  | _ => true

/-- What an event of the session leaves: `ResetTimer` is called in the handler of a
    successful read. -/
def settle (s : Timed δ) (session : Session δ) : Session.Event δ → Timed δ
  | .run (.read _) _ => { s with session, expiry := s.now + timeoutDuration, active := s.now }
  | _ => { s with session }

variable (cfg : Config δ) (sessionId : Nat)

def step (s : Timed δ) : Event δ → Option (Timed δ)
  | .pass duration => some { s with now := s.now + duration }
  | .act e => if s.due e then (Session.step cfg sessionId s.session e).map fun session => s.settle session e else none

def after (es : List (Event δ)) : Option (Timed δ) := Machine.run (step cfg sessionId) start es

/-- The events of a run but for the time that passes. -/
def untimed (es : List (Event δ)) : List (Session.Event δ) :=
  es.filterMap fun
    | .pass _ => none
    | .act e => some e

/-! ## What a step is -/

variable {cfg sessionId} {s t : Timed δ}

theorem settle_session (session : Session δ) (e : Session.Event δ) : (s.settle session e).session = session := by
  unfold settle
  split <;> rfl

theorem step_act {e : Session.Event δ} (h : step cfg sessionId s (.act e) = some t) :
    s.due e = true ∧ Session.step cfg sessionId s.session e = some t.session ∧ t = s.settle t.session e := by
  simp only [step] at h
  split at h
  · obtain ⟨session, hs, rfl⟩ := Option.map_eq_some_iff.mp h
    refine ⟨‹_›, ?_, ?_⟩
    · rw [settle_session]
      exact hs
    · rw [settle_session]
  · cases h

/-- A timed run is a run of the session. -/
theorem session_after {es : List (Event δ)} (h : after cfg sessionId es = some t) :
    Session.after cfg sessionId (untimed es) = some t.session := by
  induction es using List.reverseRecOn generalizing t with
  | nil =>
    cases h
    rfl
  | append_singleton es e ih =>
    obtain ⟨s, hs, hstep⟩ := Machine.run_concat_some.mp h
    have hi := ih hs
    rw [untimed, List.filterMap_append]
    cases e with
    | pass duration =>
      cases hstep
      simpa [untimed] using hi
    | act e => exact Machine.run_concat_some.mpr ⟨s.session, hi, (step_act hstep).2.1⟩

/-! ## Timing out -/

/-- `HandleTimeout` closes the session. -/
def TimesOut (cfg : Config δ) (sessionId : Nat) (s : Timed δ) (e : Event δ) (t : Timed δ) : Prop :=
  ∃ env, e = .act (.run .expired env) ∧ step cfg sessionId s e = some t ∧ s.session.closed = false ∧ t.session.closed = true

/-- Nothing has been read for as long as the timeout. -/
def Idle (s : Timed δ) : Prop := s.active + timeoutDuration ≤ s.now

/-- The handler of a successful read runs, without throwing, on an open session whose
    expiry is queued. -/
def Overtakes (cfg : Config δ) (sessionId : Nat) (s : Timed δ) (e : Event δ) : Prop :=
  ∃ chunk env, e = .act (.run (.read chunk) env) ∧ s.session.closed = false ∧ .expired ∈ s.session.ready ∧
    ∃ t, step cfg sessionId s e = some t ∧ t.session.crashed = false

/-- On an open session the timer runs from the last activity, and a queued expiry came
    after it. -/
structure OnTime (s : Timed δ) : Prop where
  pending : s.session.closed = false → .wait ∈ s.session.pending → s.active + timeoutDuration ≤ s.expiry
  queued : s.session.crashed = false → s.session.closed = false → .expired ∈ s.session.ready → s.Idle

/-- No handler but a read's arms the timer or queues an expiry. -/
theorem run_timer {u v : Session δ} {c : Completion} {env : Env δ} (hc : ∀ chunk, c ≠ .read chunk)
    (h : Session.step cfg sessionId u (.run c env) = some v) (hopen : v.closed = false) :
    u.closed = false ∧ (.wait ∈ v.pending → .wait ∈ u.pending) ∧ (.expired ∈ v.ready → .expired ∈ u.ready) := by
  obtain ⟨-, rfl⟩ := Session.step_run h
  have hstop : ∀ w : Session δ, w.stop.closed ≠ false := by
    intro w
    rw [Session.closed_stop]
    simp
  have hdequeue : .expired ∈ (u.dequeue c).ready → .expired ∈ u.ready := Multiset.mem_of_mem_erase
  cases c with
  | read chunk => exact absurd rfl (hc chunk)
  | wrote =>
    rcases Session.onWrite_cases (u.dequeue .wrote) with ⟨hcl, he⟩ | he
    · obtain ⟨-, hw, hx, -⟩ := Session.steady_initiate
        { u.dequeue .wrote with writeBuffer := [], request := .fresh } (show Op.read ≠ .wait by decide)
      rw [Session.handle, he]
      exact ⟨hcl, hw.mp, fun hm => hdequeue (hx.mp hm)⟩
    · rw [Session.handle, he] at hopen
      exact absurd hopen (hstop _)
  | expired =>
    simp only [Session.handle, Session.onWait, Session.handleTimeout] at hopen
    split at hopen
    · rename_i hcl
      rw [hcl] at hopen
      cases hopen
    · exact absurd hopen (hstop _)
  | failed op ec =>
    cases op with
    | read => exact absurd hopen (hstop _)
    | write => exact absurd hopen (hstop _)
    | wait => exact ⟨hopen, id, hdequeue⟩

theorem onTime_of_closed (h : s.session.closed = true) : OnTime s := by
  refine ⟨?_, ?_⟩
  · intro hopen
    rw [h] at hopen
    cases hopen
  · intro _ hopen
    rw [h] at hopen
    cases hopen

/-- Only the handler of a successful read touches the instants. -/
theorem settle_kept {e : Session.Event δ} (he : ∀ chunk env, e ≠ .run (.read chunk) env) (session : Session δ) :
    s.settle session e = { s with session } := by
  unfold settle
  split
  · rename_i chunk env
    exact absurd rfl (he chunk env)
  · rfl

/-- The wait expires no sooner than the timer. -/
theorem onTime_complete {c : Completion} (h : OnTime s) (hs : step cfg sessionId s (.act (.complete c)) = some t) :
    OnTime t := by
  obtain ⟨hdue, hstep, ht⟩ := step_act hs
  have hlive := Session.step_live hstep
  obtain ⟨⟨hp, -⟩, hsess⟩ := Session.step_complete hstep
  rw [ht, settle_kept (by intro chunk env he; cases he), hsess]
  refine ⟨?_, ?_⟩
  · intro hcl hw
    exact h.pending hcl (Multiset.mem_of_mem_erase hw)
  · intro _ hcl hx
    rcases Multiset.mem_cons.mp hx with rfl | hx
    · have hwait := h.pending hcl hp
      have hnow : s.expiry ≤ s.now := by simpa [due] using hdue
      show s.active + timeoutDuration ≤ s.now
      omega
    · exact h.queued hlive hcl hx

/-- The handler of a successful read cancels the wait, and overtakes no expiry. -/
theorem onTime_read {chunk : Bytes} {env : Env δ} (ho : ¬ Overtakes cfg sessionId s (.act (.run (.read chunk) env)))
    (hs : step cfg sessionId s (.act (.run (.read chunk) env)) = some t) : OnTime t := by
  obtain ⟨-, hstep, -⟩ := step_act hs
  obtain ⟨-, hsess⟩ := Session.step_run hstep
  have hst := Session.onRead_timer cfg sessionId env chunk (s.session.dequeue (.read chunk))
  refine ⟨?_, ?_⟩
  · intro _ hw
    rw [hsess] at hw
    exact absurd hw (Session.onRead_disarms cfg sessionId env chunk _)
  · intro hcr hcl hx
    rw [hsess] at hcl hx
    have hq := Multiset.mem_of_mem_erase (hst.expired.mp hx)
    exact absurd ⟨chunk, env, rfl, hst.closed.symm.trans hcl, hq, t, hs, hcr⟩ ho

/-- Another handler leaves the timer as it is. -/
theorem onTime_run {c : Completion} {env : Env δ} (h : OnTime s) (hread : ∀ chunk, c ≠ .read chunk)
    (hs : step cfg sessionId s (.act (.run c env)) = some t) : OnTime t := by
  obtain ⟨-, hstep, ht⟩ := step_act hs
  have hlive := Session.step_live hstep
  have hkept : t = { s with session := t.session } := by
    rw [settle_kept (by intro chunk env' he; cases he; exact hread chunk rfl)] at ht
    exact ht
  refine ⟨?_, ?_⟩
  · intro hcl hw
    obtain ⟨hopen, hwait, -⟩ := run_timer hread hstep hcl
    rw [hkept]
    exact h.pending hopen (hwait hw)
  · intro _ hcl hx
    obtain ⟨hopen, -, hready⟩ := run_timer hread hstep hcl
    rw [hkept]
    exact h.queued hlive hopen (hready hx)

theorem onTime_step {e : Event δ} (h : OnTime s) (ho : ¬ Overtakes cfg sessionId s e) (hs : step cfg sessionId s e = some t) :
    OnTime t := by
  cases e with
  | pass duration =>
    cases hs
    refine ⟨h.pending, ?_⟩
    intro hcr hcl hx
    have hidle : s.active + timeoutDuration ≤ s.now := h.queued hcr hcl hx
    show s.active + timeoutDuration ≤ s.now + duration
    omega
  | act e =>
    cases e with
    | complete c => exact onTime_complete h hs
    | stop =>
      have hcl : t.session.closed = true := by
        rw [Session.step_stop (step_act hs).2.1]
        exact Session.closed_stop _
      exact onTime_of_closed hcl
    | run c env =>
      by_cases hread : ∃ chunk, c = .read chunk
      · obtain ⟨chunk, rfl⟩ := hread
        exact onTime_read ho hs
      · exact onTime_run h (fun chunk he => hread ⟨chunk, he⟩) hs

theorem onTime_start : OnTime (start : Timed δ) := by
  refine ⟨?_, ?_⟩
  · intro _ _
    show 0 + timeoutDuration ≤ timeoutDuration
    omega
  · intro _ _ hx
    exact absurd hx (Multiset.notMem_zero _)

/-- The state after an overtaking read handler: open, with the expiry still queued, and
    just active. -/
theorem overtaken {e : Event δ} (ho : Overtakes cfg sessionId s e) :
    ∃ t env, step cfg sessionId s e = some t ∧ t.active = t.now ∧
      ∃ u, TimesOut cfg sessionId t (.act (.run .expired env)) u := by
  obtain ⟨chunk, env, rfl, hopen, hx, t, hs, hlive⟩ := ho
  obtain ⟨-, hstep, ht⟩ := step_act hs
  obtain ⟨hc, hsess⟩ := Session.step_run hstep
  have hst := Session.onRead_timer cfg sessionId env chunk (s.session.dequeue (.read chunk))
  have hcl : t.session.closed = false := by
    rw [hsess]
    exact hst.closed.trans hopen
  have hready : .expired ∈ t.session.ready := by
    rw [hsess]
    exact hst.expired.mpr ((Multiset.mem_erase_of_ne (by simp)).mpr hx)
  have hclose : (t.session.dequeue .expired).handle cfg sessionId env .expired = (t.session.dequeue .expired).stop := by
    have : (t.session.dequeue .expired).closed = false := hcl
    simp [Session.handle, Session.onWait, Session.handleTimeout, this]
  have hrun : Session.step cfg sessionId t.session (.run .expired env) = some (t.session.dequeue .expired).stop := by
    simp only [Session.step, hlive, hready, and_self, if_true, hclose]
  refine ⟨t, env, hs, by rw [ht]; rfl, t.settle (t.session.dequeue .expired).stop (.run .expired env), env, rfl, ?_, hcl, ?_⟩
  · simp only [step, due, if_true, hrun, Option.map_some]
  · rw [settle_session]
    exact Session.closed_stop _

theorem never_early_iff {es : List (Event δ)} {u : Timed δ} (h : after cfg sessionId es = some u) :
    (∀ s e t, Machine.Visits (step cfg sessionId) start es s → TimesOut cfg sessionId s e t → s.Idle) ↔
      ∀ s e, Machine.Takes (step cfg sessionId) start es s e → ¬ Overtakes cfg sessionId s e := by
  refine ⟨?_, ?_⟩
  · intro hall s e htake ho
    obtain ⟨t, env, hs, hactive, v, hout⟩ := overtaken ho
    obtain ⟨pre, post, rfl, hpre⟩ := htake
    have hvisit : Machine.Visits (step cfg sessionId) start (pre ++ e :: post) t :=
      ⟨pre ++ [e], post, by simp, Machine.run_concat_some.mpr ⟨s, hpre, hs⟩⟩
    have hidle := hall t _ v hvisit hout
    unfold Idle at hidle
    rw [hactive] at hidle
    have : 0 < timeoutDuration := by decide
    omega
  · intro hok s e t hvisit hout
    have hon : OnTime s := Machine.visits_invariant onTime_step onTime_start hok hvisit
    obtain ⟨env, rfl, hs, hopen, -⟩ := hout
    obtain ⟨-, hstep, -⟩ := step_act hs
    exact hon.queued (Session.step_live hstep) hopen (Session.step_run hstep).1

/-- A client that is silent for the whole timeout. -/
def silentRun : List (Event Unit) := [.pass timeoutDuration, .act (.complete .expired)]

theorem silent_client_closed_on_time : ∃ u, after siteConfig 1 silentRun = some u ∧
    ∀ s e t, Machine.Visits (step siteConfig 1) start silentRun s → TimesOut siteConfig 1 s e t → s.Idle := by
  have hv : (after siteConfig 1 silentRun).isSome = true := by decide
  obtain ⟨u, hu⟩ := Option.isSome_iff_exists.mp hv
  refine ⟨u, hu, (never_early_iff hu).mpr ?_⟩
  intro s e htake ho
  obtain ⟨chunk, env, rfl, -⟩ := ho
  obtain ⟨pre, post, he, -⟩ := htake
  have hm : Event.act (.run (.read chunk) env) ∈ silentRun := by
    rw [he]
    simp
  simp [silentRun] at hm

/-- A byte arrives as the timer expires; the read's handler runs first. -/
def busyRun : List (Event Unit) :=
  [.pass timeoutDuration, .act (.complete (.read (ascii "G"))), .act (.complete .expired),
    .act (.run (.read (ascii "G")) ⟨site, ()⟩)]

theorem busy_session_timed_out : ∃ s t, after siteConfig 1 busyRun = some s ∧
    TimesOut siteConfig 1 s (.act (.run .expired ⟨site, ()⟩)) t ∧ s.active = s.now ∧ ¬ s.Idle := by
  have hv : (after siteConfig 1 busyRun).bind (fun s => (step siteConfig 1 s (.act (.run .expired ⟨site, ()⟩))).map fun t =>
      decide (s.session.closed = false ∧ t.session.closed = true ∧ s.active = s.now ∧ ¬ s.active + timeoutDuration ≤ s.now)) =
      some true := by decide
  obtain ⟨s, hs, hv⟩ := Option.bind_eq_some_iff.mp hv
  obtain ⟨t, ht, hd⟩ := Option.map_eq_some_iff.mp hv
  obtain ⟨hopen, hclosed, hactive, hidle⟩ := of_decide_eq_true hd
  exact ⟨s, t, hs, ⟨_, rfl, ht, hopen, hclosed⟩, hactive, hidle⟩

end Timed

end BreWebServer.Server
