/-
  BreWebServer.Server.Site — the server with the one table behind it.

  `WebServer`'s machine lets each handler see a database of its own choice. Here all of them
  see the table `users` as the handlers before left it: a handler makes one call of
  `UserService`, which is one transaction. What else a call meets (the files, the pool,
  OpenSSL) still changes from one to the next as it likes.

  (1) `served_one_at_a_time`: whatever connections come and go, and however their streams
  are cut and their handlers interleave, the table and all that the sessions wrote are what
  the requests give when they are served one after the other in the order of their
  handlers.

  From this: (2) no request on any connection changes or takes away an account
  (`accounts_only_grow`). Of every run from the table as `schema.sql` creates it: (3) a login
  is answered 200 exactly when its user registered before, on whatever connection
  (`login_means_registered`); (4) of the registrations for one name, on all connections, one
  at most is answered 200 (`name_registered_once`).
-/

import BreWebServer.Server.Exchange
import BreWebServer.Server.Serving
import BreWebServer.Server.Sessions

namespace BreWebServer.Server

open BreWebServer.Lib BreWebServer.Cpp BreWebServer.Database BreWebServer.Http BreWebServer.Service
open BreWebServer.Service.UserTable

/-- The request that the handler of a completion handles, if it comes to one. -/
def Session.requestOf {δ : Type} (s : Session δ) : Completion → Option HttpRequest
  | .read chunk =>
    match parse s.request (s.readBuffer ++ chunk) with
    | (.returned true, request, _) => some request
    | _ => none
  | _ => none

structure Site where
  server : WebServer Backend
  users : Users
  /-- The requests handled, each with its connection. -/
  visits : List (Nat × Visit)

namespace Site

inductive Event where
  /-- A step of the server that runs no handler of a session. -/
  | server (e : WebServer.Event Backend)
  /-- A handler of connection `i`'s session runs. -/
  | handle (i : Nat) (c : Completion) (fs : Fs) (call : Call)

def runsHandler : WebServer.Event Backend → Bool
  | .session _ (.run _ _) => true
  | _ => false

def new (initial : Users) : Site := ⟨.new, initial, []⟩

variable {δ : Type} (cfg : Config δ) (pg : Postgres) (sha256 : Bytes → List UInt8)

/-- What the handler of a completion asks of the server, if anything. -/
def visitOf (s : Site) (i : Nat) (c : Completion) (fs : Fs) (call : Call) : Option Visit :=
  match s.server.connections[i]? with
  | some (.started sessionId session) => (session.requestOf c).map fun req => ⟨sessionId, fs, call, req⟩
  | _ => none

/-- A handler has run; what it leaves of the table is its answer's. -/
def serving (s : Site) (i : Nat) (visit : Option Visit) (server : WebServer Backend) : Site :=
  match visit with
  | some visit =>
    { server
      users := (databaseAfter (cfg.withUsers pg sha256) visit.sessionId ⟨visit.fs, ⟨s.users, visit.call⟩⟩ visit.req).users
      visits := s.visits ++ [(i, visit)] }
  | none => { s with server }

def step (s : Site) : Event → Option Site
  | .server e =>
    if runsHandler e then none
    else (s.server.step (cfg.withUsers pg sha256) e).map fun server => { s with server }
  | .handle i c fs call =>
    (s.server.step (cfg.withUsers pg sha256) (.session i (.run c ⟨fs, ⟨s.users, call⟩⟩))).map
      (s.serving cfg pg sha256 i (s.visitOf i c fs call))

def after (initial : Users) (es : List Event) : Option Site := Machine.run (step cfg pg sha256) (new initial) es

/-- The requests handled with what they are answered, served one after the other. -/
def exchanges (initial : Users) (s : Site) : List (Nat × HttpRequest × Except Exc Bytes) :=
  List.zipWith (fun v answer => (v.1, v.2.req, answer)) s.visits
    (Machine.outputs (serve cfg pg sha256) initial (s.visits.map (·.2))).1

/-- Those of connection `i`. -/
def exchangesOf (initial : Users) (i : Nat) (s : Site) : List (HttpRequest × Except Exc Bytes) :=
  (s.exchanges cfg pg sha256 initial).filterMap fun x => if x.1 = i then some x.2 else none

variable {cfg pg sha256} {initial : Users} {s t : Site}

/-! ## What a handler handles -/

theorem handled_run {cfg : Config Backend} {sessionId : Nat} {s t : Session Backend} {c : Completion} {env : Env Backend}
    (hs : s.step cfg sessionId (.run c env) = some t) :
    t.handled = s.handled ++ (s.requestOf c).toList.map fun req => (req, env) := by
  obtain ⟨hm, rfl⟩ := Session.step_run hs
  have hstop : ∀ u : Session Backend, u.stop.handled = u.handled := fun u => (Session.quieter_stop u).handled
  cases c with
  | read chunk =>
    show ((s.dequeue (.read chunk)).onRead cfg sessionId env (.ok chunk)).handled = _
    rcases Session.onRead_cases cfg sessionId env chunk (s.dequeue (.read chunk)) with
      ⟨q, b, hq, he⟩ | ⟨q, b, hq, he⟩ | ⟨ex, q, b, hq, he⟩
    · have hq : parse s.request (s.readBuffer ++ chunk) = _ := hq
      rw [he, (Session.handled_handleRequest env _).1]
      simp only [Session.requestOf, hq, Option.toList_some, List.map_singleton]
      rfl
    · have hq : parse s.request (s.readBuffer ++ chunk) = _ := hq
      rw [he]
      simp only [Session.requestOf, hq, Option.toList_none, List.map_nil, List.append_nil]
      rfl
    · have hq : parse s.request (s.readBuffer ++ chunk) = _ := hq
      rw [he]
      simp only [Session.requestOf, hq, Option.toList_none, List.map_nil, List.append_nil]
      rfl
  | wrote =>
    simp only [Session.requestOf, Option.toList_none, List.map_nil, List.append_nil]
    exact (Session.onWrite_history none (s.dequeue .wrote)).1
  | expired =>
    simp only [Session.requestOf, Option.toList_none, List.map_nil, List.append_nil, Session.handle, Session.onWait,
      Session.handleTimeout]
    split
    · rfl
    · exact hstop _
  | failed op ec =>
    simp only [Session.requestOf, Option.toList_none, List.map_nil, List.append_nil]
    cases op with
    | read => exact hstop _
    | write => exact hstop _
    | wait => rfl

/-- Nothing but a handler handles a request. -/
theorem handled_kept {cfg : Config Backend} {sessionId : Nat} {s t : Session Backend} {e : Session.Event Backend}
    (he : ∀ c env, e ≠ .run c env) (hs : s.step cfg sessionId e = some t) : t.handled = s.handled := by
  cases e with
  | complete c =>
    obtain ⟨-, rfl⟩ := Session.step_complete hs
    rfl
  | run c env => exact absurd rfl (he c env)
  | stop =>
    obtain rfl := Session.step_stop hs
    exact (Session.quieter_stop s).handled

/-! ## (1) One request at a time -/

/-- What a session's request was answered in the surroundings it was handled in. -/
def outcome (cfg : Config Backend) (sessionId : Nat) (q : HttpRequest × Env Backend) : HttpRequest × Except Exc Bytes :=
  (q.1, respond cfg sessionId q.2 q.1)

variable (cfg pg sha256) in
structure Serialized (initial : Users) (s : Site) : Prop where
  reachable : ∃ es, WebServer.after (cfg.withUsers pg sha256) es = some s.server
  table : s.users = tableAfter cfg pg sha256 initial (s.visits.map (·.2))
  handled : ∀ i sessionId session, s.server.connections[i]? = some (.started sessionId session) →
    session.handled.map (outcome (cfg.withUsers pg sha256) sessionId) = s.exchangesOf cfg pg sha256 initial i
  unstarted : ∀ i, (∀ sessionId session, s.server.connections[i]? ≠ some (.started sessionId session)) →
    s.exchangesOf cfg pg sha256 initial i = []

/-- A request served is answered as its handler answers it, and leaves the table that the handler leaves. -/
theorem serve_eq_respond (users : Users) (visit : Visit) : serve cfg pg sha256 users visit =
    (respond (cfg.withUsers pg sha256) visit.sessionId ⟨visit.fs, ⟨users, visit.call⟩⟩ visit.req,
      (databaseAfter (cfg.withUsers pg sha256) visit.sessionId ⟨visit.fs, ⟨users, visit.call⟩⟩ visit.req).users) := by
  unfold serve respond databaseAfter
  cases answer (cfg.withUsers pg sha256) visit.sessionId ⟨visit.fs, ⟨users, visit.call⟩⟩ visit.req <;> rfl

theorem exchanges_concat (server : WebServer Backend) (users : Users) (visits : List (Nat × Visit)) (i : Nat) (visit : Visit) :
    exchanges cfg pg sha256 initial ⟨server, users, visits ++ [(i, visit)]⟩ =
      exchanges cfg pg sha256 initial ⟨server, users, visits⟩ ++
        [(i, visit.req, (serve cfg pg sha256 (tableAfter cfg pg sha256 initial (visits.map (·.2))) visit).1)] := by
  unfold exchanges
  rw [List.map_append, Machine.outputs_append, List.zipWith_append]
  · rfl
  · rw [Machine.outputs_length, List.length_map]

/-- A request served is an exchange of its own connection alone. -/
theorem exchangesOf_concat (server server' : WebServer Backend) (users users' : Users) (visits : List (Nat × Visit)) (i k : Nat)
    (visit : Visit) : exchangesOf cfg pg sha256 initial k ⟨server', users', visits ++ [(i, visit)]⟩ =
      exchangesOf cfg pg sha256 initial k ⟨server, users, visits⟩ ++
        (if i = k then [(visit.req, (serve cfg pg sha256 (tableAfter cfg pg sha256 initial (visits.map (·.2))) visit).1)]
          else []) := by
  unfold exchangesOf
  rw [exchanges_concat, List.filterMap_append]
  congr 1
  split
  · rename_i hik
    simp [hik]
  · rename_i hik
    simp [hik]

theorem serialized_new (initial : Users) : Serialized cfg pg sha256 initial (new initial) := by
  refine ⟨⟨[], rfl⟩, rfl, ?_, fun i _ => rfl⟩
  intro i sessionId session hi
  simp [new, WebServer.new] at hi

/-- A step of the server that runs no handler. -/
theorem serialized_server {e : WebServer.Event Backend} {server : WebServer Backend} (h : Serialized cfg pg sha256 initial s)
    (he : runsHandler e = false) (hs : s.server.step (cfg.withUsers pg sha256) e = some server) :
    Serialized cfg pg sha256 initial { s with server } := by
  obtain ⟨es, hes⟩ := h.reachable
  have hm := WebServer.moves_step (WebServer.handed_after hes) hs
  refine ⟨⟨es ++ [e], Machine.run_concat_some.mpr ⟨s.server, hes, hs⟩⟩, h.table, ?_, ?_⟩
  · intro i sessionId session hi
    rcases WebServer.started_from hm hi with ⟨hold, -⟩ | ⟨-, hold, rfl⟩ | ⟨e', before, rfl, hold, hstep⟩
    · exact h.handled i sessionId session hold
    · exact (h.unstarted i (by rw [hold]; simp)).symm
    · have hrun : ∀ c env, e' ≠ .run c env := by
        intro c env heq
        subst heq
        cases he
      rw [handled_kept hrun hstep]
      exact h.handled i sessionId before hold
  · intro i hi
    refine h.unstarted i ?_
    intro sessionId session hold
    obtain ⟨session', ht, -⟩ := WebServer.started_step hold hm
    exact hi sessionId session' ht

/-- A handler runs on a session that is there. -/
theorem handle_cases {i : Nat} {c : Completion} {fs : Fs} {call : Call}
    (hs : step cfg pg sha256 s (.handle i c fs call) = some t) :
    ∃ sessionId before session, s.server.connections[i]? = some (.started sessionId before) ∧
      before.step (cfg.withUsers pg sha256) sessionId (.run c ⟨fs, ⟨s.users, call⟩⟩) = some session ∧
      s.server.step (cfg.withUsers pg sha256) (.session i (.run c ⟨fs, ⟨s.users, call⟩⟩)) = some t.server ∧
      t.server.connections[i]? = some (.started sessionId session) ∧
      t = s.serving cfg pg sha256 i ((before.requestOf c).map fun req => ⟨sessionId, fs, call, req⟩) t.server := by
  obtain ⟨server, hserver, rfl⟩ := Option.map_eq_some_iff.mp hs
  have hkept : (s.serving cfg pg sha256 i (s.visitOf i c fs call) server).server = server := by
    unfold serving
    split <;> rfl
  have hstep := hserver
  replace hstep := (WebServer.alive_of_step hstep).2
  simp only [WebServer.act] at hstep
  split at hstep
  · rename_i sessionId before hi
    obtain ⟨-, hstep⟩ := Option.ite_none_right_eq_some.mp hstep
    obtain ⟨session, hsession, rfl⟩ := Option.map_eq_some_iff.mp hstep
    refine ⟨sessionId, before, session, hi, hsession, by rw [hkept]; exact hserver, ?_, ?_⟩
    · rw [hkept]
      show (s.server.connections.set i (.started sessionId session))[i]? = _
      rw [Positions.getElem?_set_iff hi, if_pos rfl]
    · rw [hkept]
      simp only [visitOf, hi]
  · cases hstep

theorem serialized_handle {i : Nat} {c : Completion} {fs : Fs} {call : Call} (h : Serialized cfg pg sha256 initial s)
    (hs : step cfg pg sha256 s (.handle i c fs call) = some t) : Serialized cfg pg sha256 initial t := by
  obtain ⟨sessionId, before, session, hi, hstep, hserver, ht, he⟩ := handle_cases hs
  obtain ⟨es, hes⟩ := h.reachable
  have hm := WebServer.moves_step (WebServer.handed_after hes) hserver
  have hreach : ∃ es, WebServer.after (cfg.withUsers pg sha256) es = some t.server :=
    ⟨_, Machine.run_concat_some.mpr ⟨s.server, hes, hserver⟩⟩
  have hhandled := handled_run hstep
  have hold : ∀ k sid u, k ≠ i → t.server.connections[k]? = some (.started sid u) →
      s.server.connections[k]? = some (.started sid u) := by
    intro k sid u hk hu
    rcases WebServer.started_from hm hu with ⟨hold, -⟩ | ⟨hcreate, -, -⟩ | ⟨e', b, hown, -, -⟩
    · exact hold
    · cases hcreate
    · cases hown
      exact absurd rfl hk
  have hnone : ∀ k, (∀ sid u, t.server.connections[k]? ≠ some (.started sid u)) →
      k ≠ i ∧ ∀ sid u, s.server.connections[k]? ≠ some (.started sid u) := by
    intro k hk
    refine ⟨?_, ?_⟩
    · intro hki
      subst hki
      exact hk sessionId session ht
    · intro sid u hu
      obtain ⟨u', hu', -⟩ := WebServer.started_step hu hm
      exact hk sid u' hu'
  cases hreq : before.requestOf c with
  | none =>
    simp only [hreq, Option.toList_none, List.map_nil, List.append_nil] at hhandled
    simp only [hreq, Option.map_none, serving] at he
    rw [he] at ht hold hnone hreach ⊢
    refine ⟨hreach, h.table, ?_, fun k hk => h.unstarted k (hnone k hk).2⟩
    intro k sid u hu
    by_cases hk : k = i
    · subst hk
      rw [ht] at hu
      cases hu
      rw [hhandled]
      exact h.handled k sessionId before hi
    · exact h.handled k sid u (hold k sid u hk hu)
  | some req =>
    simp only [hreq, Option.toList_some, List.map_singleton] at hhandled
    simp only [hreq, Option.map_some, serving] at he
    rw [he] at ht hold hnone hreach ⊢
    refine ⟨hreach, ?_, ?_, ?_⟩
    · rw [List.map_append, List.map_singleton, tableAfter_concat, ← h.table, serve_eq_respond]
    · intro k sid u hu
      rw [exchangesOf_concat s.server _ s.users]
      by_cases hk : k = i
      · subst hk
        rw [ht] at hu
        cases hu
        rw [hhandled, List.map_append, h.handled k sessionId before hi, if_pos rfl, serve_eq_respond, ← h.table]
        rfl
      · rw [if_neg (fun heq => hk heq.symm), List.append_nil]
        exact h.handled k sid u (hold k sid u hk hu)
    · intro k hk
      rw [exchangesOf_concat s.server _ s.users, if_neg (fun heq => (hnone k hk).1 heq.symm), List.append_nil]
      exact h.unstarted k (hnone k hk).2

theorem serialized_step {e : Event} (h : Serialized cfg pg sha256 initial s) (hs : step cfg pg sha256 s e = some t) :
    Serialized cfg pg sha256 initial t := by
  cases e with
  | server e =>
    simp only [step] at hs
    split at hs
    · cases hs
    · rename_i he
      obtain ⟨server, hserver, rfl⟩ := Option.map_eq_some_iff.mp hs
      exact serialized_server h (by simpa using he) hserver
  | handle i c fs call => exact serialized_handle h hs

theorem serialized_after {es : List Event} (h : after cfg pg sha256 initial es = some s) :
    Serialized cfg pg sha256 initial s := Machine.run_invariant serialized_step es (serialized_new initial) h

/-- The server over its table, against the requests served one by one. -/
theorem served_one_at_a_time {es : List Event} (h : after cfg pg sha256 initial es = some s) :
    s.users = tableAfter cfg pg sha256 initial (s.visits.map (·.2)) ∧
    ∀ i sessionId session, s.server.connections[i]? = some (.started sessionId session) →
      session.written = (s.exchangesOf cfg pg sha256 initial i).filterMap (·.2.toOption) ∧
      (s.exchangesOf cfg pg sha256 initial i).map (·.1) <+: requests session.received.flatten := by
  have hser := serialized_after h
  refine ⟨hser.table, ?_⟩
  intro i sessionId session hi
  obtain ⟨es, hes⟩ := hser.reachable
  obtain ⟨cur, hsync⟩ := Session.synced_after ((WebServer.projected_after hes).started i sessionId session hi)
  rw [← hser.handled i sessionId session hi]
  refine ⟨?_, ?_⟩
  · rw [hsync.replies, List.filterMap_map]
    rfl
  · rw [List.map_map, reads_requests hsync.reads]
    exact List.prefix_append _ _

/-- "u" registers on one connection and logs in on another. -/
def registerBytes : Bytes :=
  ascii "POST /api/register H\r\nContent-Length: 21\r\n\r\nusername=u&password=p"

def loginBytes : Bytes := ascii "POST /api/login H\r\nContent-Length: 21\r\n\r\nusername=u&password=p"

def registerThenLogin : List Event :=
  [.server .start, .server .startAccept, .server (.complete .accepted), .server (.run .accepted), .server (.log false),
    .server .post, .server .check, .server .startAccept, .server (.complete .accepted), .server (.run .accepted),
    .server (.log false), .server .post, .server .check, .server .startAccept, .server (.create 0), .server (.create 1),
    .server (.session 0 (.complete (.read registerBytes))), .server (.session 1 (.complete (.read loginBytes))),
    .handle 0 (.read registerBytes) site Accounts.works]

theorem registration_served : ∃ s, after databaseConfig .singleByte Accounts.digestOf .empty registerThenLogin = some s ∧
    s.users.rows.length = 1 ∧ s.visits.length = 1 ∧
    s.users = tableAfter databaseConfig .singleByte Accounts.digestOf .empty (s.visits.map (·.2)) := by
  have hv : (after databaseConfig .singleByte Accounts.digestOf .empty registerThenLogin).map
      (fun s => (s.users.rows.length, s.visits.length)) = some (1, 1) := by decide +kernel
  obtain ⟨s, hs, hd⟩ := Option.map_eq_some_iff.mp hv
  simp only [Prod.mk.injEq] at hd
  exact ⟨s, hs, hd.1, hd.2, (served_one_at_a_time hs).1⟩

/-! ## (2) Accounts stay -/

/-- A step serves no request, or the one that its handler comes to. -/
theorem visits_step {e : Event} (hs : step cfg pg sha256 s e = some t) :
    t.visits = s.visits ∨ ∃ i c fs call visit, e = .handle i c fs call ∧ s.visitOf i c fs call = some visit ∧
      t.visits = s.visits ++ [(i, visit)] := by
  cases e with
  | server e =>
    simp only [step] at hs
    split at hs
    · cases hs
    · obtain ⟨server, -, rfl⟩ := Option.map_eq_some_iff.mp hs
      exact .inl rfl
  | handle i c fs call =>
    obtain ⟨server, -, rfl⟩ := Option.map_eq_some_iff.mp hs
    cases hv : s.visitOf i c fs call with
    | none => exact .inl rfl
    | some visit => exact .inr ⟨i, c, fs, call, visit, rfl, hv, rfl⟩

theorem visits_run (es : List Event) : ∀ {s t : Site}, Machine.run (step cfg pg sha256) s es = some t → s.visits <+: t.visits := by
  induction es with
  | nil =>
    intro s t h
    cases h
    exact List.prefix_refl _
  | cons e es ih =>
    intro s t h
    obtain ⟨u, hu, h⟩ := Option.bind_eq_some_iff.mp h
    refine List.IsPrefix.trans ?_ (ih h)
    rcases visits_step hu with he | ⟨i, c, fs, call, visit, -, -, he⟩
    · rw [he]
    · rw [he]
      exact List.prefix_append _ _

/-- What every further request on every connection leaves of the table. -/
theorem accounts_only_grow {es es' : List Event} (hreg : Regular initial) (h : after cfg pg sha256 initial es = some s)
    (ht : Machine.run (step cfg pg sha256) s es' = some t) :
    s.users.rows <+: t.users.rows ∧ t.users.rows.Pairwise (fun a b => a.id < b.id) ∧
    ∀ (call call' : Call) (limit offset : Int), call.works = true → call'.works = true → 0 ≤ limit → 0 ≤ offset →
      Whole s.users limit offset (getAllUsers call s.users limit offset) ∧
      getAllUsers call s.users limit offset <+: getAllUsers call' t.users limit offset := by
  have hs := (serialized_after h).table
  have ht' : t.users = _ := (Machine.run_invariant serialized_step es' (serialized_after h) ht).table
  obtain ⟨newer, hnewer⟩ := visits_run es' ht
  have hrows : s.users.rows <+: t.users.rows := by
    rw [hs, ht', ← hnewer, List.map_append, tableAfter_append]
    exact rows_tableAfter _ _
  have hregs : Regular s.users := by
    rw [hs]
    exact regular_tableAfter hreg _
  have hregt : Regular t.users := by
    rw [ht']
    exact regular_tableAfter hreg _
  refine ⟨hrows, hregt.ordered, ?_⟩
  intro call call' limit offset hw hw' hl ho
  exact listing_grows hregs hregt hrows hw hw' hl ho

theorem login_keeps_account : ∃ s t, after databaseConfig .singleByte Accounts.digestOf .empty registerThenLogin = some s ∧
    Machine.run (step databaseConfig .singleByte Accounts.digestOf) s [.handle 1 (.read loginBytes) site Accounts.works] = some t ∧
    s.users.rows.length = 1 ∧ s.users.rows <+: t.users.rows := by
  have hv : (after databaseConfig .singleByte Accounts.digestOf .empty registerThenLogin).bind (fun s =>
      (Machine.run (step databaseConfig .singleByte Accounts.digestOf) s
        [.handle 1 (.read loginBytes) site Accounts.works]).map fun _ => s.users.rows.length) = some 1 := by decide +kernel
  obtain ⟨s, hs, hv⟩ := Option.bind_eq_some_iff.mp hv
  obtain ⟨t, ht, hd⟩ := Option.map_eq_some_iff.mp hv
  exact ⟨s, t, hs, ht, hd, (accounts_only_grow regular_empty hs ht).1⟩

/-! ## (3) Who is let in -/

/-- A request served was come to by a handler of the run, in the table that it met. -/
theorem visit_taken {es : List Event} : ∀ {s : Site}, after cfg pg sha256 .empty es = some s → ∀ {older : List (Nat × Visit)}
    {j : Nat} {visit : Visit}, older ++ [(j, visit)] <+: s.visits → ∃ u c fs call, u.visits = older ∧
      Machine.Takes (step cfg pg sha256) (new .empty) es u (.handle j c fs call) ∧ u.visitOf j c fs call = some visit := by
  induction es using List.reverseRecOn with
  | nil =>
    intro s h older j visit hp
    cases h
    exact absurd (List.prefix_nil.mp hp) (by simp)
  | append_singleton es e ih =>
    intro t h older j visit hp
    obtain ⟨s, hs, ht⟩ := Machine.run_concat_some.mp h
    have hold : older ++ [(j, visit)] <+: s.visits → ∃ u c fs call, u.visits = older ∧
        Machine.Takes (step cfg pg sha256) (new .empty) (es ++ [e]) u (.handle j c fs call) ∧ u.visitOf j c fs call = some visit := by
      intro hp
      obtain ⟨u, c, fs, call, hu, ⟨pre, post, rfl, hpre⟩, hv⟩ := ih hs hp
      exact ⟨u, c, fs, call, hu, ⟨pre, post ++ [e], by simp, hpre⟩, hv⟩
    rcases visits_step ht with he | ⟨i, c, fs, call, visit', rfl, hv, he⟩
    · rw [he] at hp
      exact hold hp
    · rw [he, List.prefix_concat_iff] at hp
      rcases hp with hp | hp
      · obtain ⟨rfl, hlast⟩ := List.append_inj' hp rfl
        cases hlast
        exact ⟨s, c, fs, call, rfl, ⟨es, [], rfl, hs⟩, hv⟩
      · exact hold hp

theorem taken_visit {es : List Event} {u : Site} {j : Nat} {c : Completion} {fs : Fs} {call : Call} {visit : Visit}
    (h : after cfg pg sha256 .empty es = some s) (ht : Machine.Takes (step cfg pg sha256) (new .empty) es u (.handle j c fs call))
    (hv : u.visitOf j c fs call = some visit) : u.visits ++ [(j, visit)] <+: s.visits := by
  obtain ⟨pre, post, rfl, hpre⟩ := ht
  have h : Machine.run (step cfg pg sha256) (new .empty) (pre ++ .handle j c fs call :: post) = some s := h
  rw [Machine.run_append, hpre] at h
  have h : (step cfg pg sha256 u (.handle j c fs call)).bind (Machine.run (step cfg pg sha256) · post) = some s := h
  obtain ⟨w, hw, h⟩ := Option.bind_eq_some_iff.mp h
  refine List.IsPrefix.trans ?_ (visits_run post h)
  obtain ⟨server, -, rfl⟩ := Option.map_eq_some_iff.mp hw
  rw [hv]
  exact List.prefix_refl _

variable (cfg pg sha256) in
/-- A handler of the run answered 200 to a registration, on some connection. -/
structure RegisteredIn (es : List Event) (registration : Visit) : Prop where
  taken : ∃ u j c fs call, Machine.Takes (step cfg pg sha256) (new .empty) es u (.handle j c fs call) ∧
    u.visitOf j c fs call = some registration ∧ statusOf cfg pg sha256 u.users registration = some .ok
  register : IsRegister registration.req

theorem registeredIn_iff {es : List Event} (h : after cfg pg sha256 .empty es = some s) (registration : Visit) :
    RegisteredIn cfg pg sha256 es registration ↔
      ∃ older, RegisteredAt cfg pg sha256 (s.visits.map (·.2)) older registration := by
  have htable : ∀ {u e}, Machine.Takes (step cfg pg sha256) (new .empty) es u e →
      u.users = tableAfter cfg pg sha256 .empty (u.visits.map (·.2)) := by
    intro u e htake
    obtain ⟨pre, post, -, hpre⟩ := htake
    exact (serialized_after hpre).table
  constructor
  · intro hin
    obtain ⟨u, j, c, fs, call, htake, hv, hok⟩ := hin.taken
    refine ⟨u.visits.map (·.2), ?_, hin.register, by rw [← htable htake]; exact hok⟩
    simpa using (taken_visit h htake hv).map (·.2)
  · intro hat
    obtain ⟨older, hreg⟩ := hat
    obtain ⟨newer, hnewer⟩ := hreg.among
    obtain ⟨a, b, hsplit, ha, -⟩ := List.map_eq_append_iff.mp hnewer.symm
    obtain ⟨a', last, rfl, ha', hlast⟩ := List.map_eq_append_iff.mp ha
    obtain ⟨⟨j, visit⟩, rfl, hvisit⟩ := List.map_eq_singleton_iff.mp hlast
    simp only at hvisit
    subst hvisit
    obtain ⟨u, c, fs, call, hu, htake, hv⟩ := visit_taken h (show a' ++ [(j, visit)] <+: s.visits from ⟨b, hsplit.symm⟩)
    refine ⟨⟨u, j, c, fs, call, htake, hv, ?_⟩, hreg.register⟩
    rw [htable htake, hu, ha']
    exact hreg.ok

/-- Which logins are answered 200, whatever the connections of registration and login. -/
theorem login_means_registered {es : List Event} {i : Nat} {c : Completion} {fs : Fs} {call : Call} {visit : Visit}
    (h : after cfg pg sha256 .empty es = some s) (hdigest : ∀ j c fs call, .handle j c fs call ∈ es → call.digest = true)
    (hv : s.visitOf i c fs call = some visit) (hl : IsLogin visit.req) (hw : call.works = true) (hd : call.digest = true)
    (hp : cfg.postgres = true) :
    statusOf cfg pg sha256 s.users visit = some .ok ↔
      (formOf visit.req).Complete ∧ ∃ registration, RegisteredIn cfg pg sha256 es registration ∧
        SameName pg (formOf registration.req).username (formOf visit.req).username ∧
        sha256 (formOf registration.req).password = sha256 (formOf visit.req).password := by
  have hcall : ∀ {u : Site} {j c fs call visit}, u.visitOf j c fs call = some visit → visit.call = call := by
    intro u j c fs call visit hv
    unfold visitOf at hv
    split at hv
    · obtain ⟨req, -, rfl⟩ := Option.map_eq_some_iff.mp hv
      rfl
    · cases hv
  have hdigests : ∀ v ∈ s.visits.map (·.2), IsRegister v.req → v.call.digest = true := by
    intro v hmap _
    obtain ⟨⟨j, v⟩, hm, rfl⟩ := List.mem_map.mp hmap
    obtain ⟨older, newer, hsplit⟩ := List.append_of_mem hm
    have hamong : older ++ [(j, v)] <+: s.visits := ⟨newer, by rw [hsplit]; simp⟩
    obtain ⟨u, c, fs, call, -, ⟨pre, post, rfl, -⟩, hv⟩ := visit_taken h hamong
    rw [hcall hv]
    exact hdigest j c fs call (by simp)
  rw [(serialized_after h).table, login_registered_iff hdigests hl (by rw [hcall hv]; exact hw) (by rw [hcall hv]; exact hd) hp]
  refine and_congr_right fun _ => ?_
  constructor
  · intro hparts
    obtain ⟨older, registration, hreg, hname, hsame⟩ := hparts
    exact ⟨registration, (registeredIn_iff h registration).mpr ⟨older, hreg⟩, hname, hsame⟩
  · intro hparts
    obtain ⟨registration, hreg, hname, hsame⟩ := hparts
    obtain ⟨older, hat⟩ := (registeredIn_iff h registration).mp hreg
    exact ⟨older, registration, hat, hname, hsame⟩

theorem other_connection_logs_in : ∃ s visit, after databaseConfig .singleByte Accounts.digestOf .empty registerThenLogin = some s ∧
    s.visitOf 1 (.read loginBytes) site Accounts.works = some visit ∧
    ∃ registration, RegisteredIn databaseConfig .singleByte Accounts.digestOf registerThenLogin registration ∧
      SameName .singleByte (formOf registration.req).username (formOf visit.req).username := by
  have hv : ((after databaseConfig .singleByte Accounts.digestOf .empty registerThenLogin).bind fun s =>
      (s.visitOf 1 (.read loginBytes) site Accounts.works).map fun visit =>
        decide (visit.req.method = .post ∧ visit.req.path = ascii "/api/login" ∧
          statusOf databaseConfig .singleByte Accounts.digestOf s.users visit = some .ok)) = some true := by decide +kernel
  obtain ⟨s, hs, hv⟩ := Option.bind_eq_some_iff.mp hv
  obtain ⟨visit, hvisit, hd⟩ := Option.map_eq_some_iff.mp hv
  obtain ⟨hpost, hpath, hok⟩ := of_decide_eq_true hd
  have hdigest : ∀ j c fs call, .handle j c fs call ∈ registerThenLogin → call.digest = true := by
    intro j c fs call hm
    simp only [registerThenLogin, List.mem_cons, List.not_mem_nil, or_false, reduceCtorEq, false_or, Event.handle.injEq] at hm
    rw [hm.2.2.2]
    rfl
  obtain ⟨-, registration, hreg, hname, -⟩ :=
    (login_means_registered hs hdigest hvisit ⟨hpost, hpath⟩ rfl rfl rfl).mp hok
  exact ⟨s, visit, hs, hvisit, registration, hreg, hname⟩

/-! ## (4) Who registers -/

variable (cfg pg sha256) in
/-- After the events `pre` of a run, in state `u`, a handler serves `visit`. -/
structure Serves (es pre : List Event) (u : Site) (visit : Visit) : Prop where
  state : after cfg pg sha256 .empty pre = some u
  handler : ∃ j c fs call post, es = pre ++ .handle j c fs call :: post ∧ u.visitOf j c fs call = some visit

theorem Serves.among {es pre : List Event} {u : Site} {visit : Visit} (hv : Serves cfg pg sha256 es pre u visit)
    (h : after cfg pg sha256 .empty es = some s) : u.visits.map (·.2) ++ [visit] <+: s.visits.map (·.2) := by
  obtain ⟨j, c, fs, call, post, rfl, hvisit⟩ := hv.handler
  simpa using (taken_visit h ⟨pre, post, rfl, hv.state⟩ hvisit).map (·.2)

/-- A request served earlier is among those before. -/
theorem Serves.earlier {es pre pre' : List Event} {u u' : Site} {visit visit' : Visit} (hv : Serves cfg pg sha256 es pre u visit)
    (hv' : Serves cfg pg sha256 es pre' u' visit') (hlt : pre.length < pre'.length) : u.visits.length < u'.visits.length := by
  obtain ⟨j, c, fs, call, post, rfl, hvisit⟩ := hv.handler
  obtain ⟨j', c', fs', call', post', hes, -⟩ := hv'.handler
  have hpre : pre ++ [.handle j c fs call] <+: pre' := by
    have hnext : pre ++ [.handle j c fs call] <+: pre ++ .handle j c fs call :: post := ⟨post, by simp⟩
    have hlater : pre' <+: pre ++ .handle j c fs call :: post := by
      rw [hes]
      exact List.prefix_append _ _
    refine List.prefix_of_prefix_length_le hnext hlater ?_
    simp only [List.length_append, List.length_singleton]
    omega
  obtain ⟨rest, rfl⟩ := hpre
  have hbefore := taken_visit hv'.state ⟨pre, rest, by simp, hv.state⟩ hvisit
  have hlength := hbefore.length_le
  simp only [List.length_append, List.length_singleton] at hlength
  omega

/-- Of two registrations for one name, whatever the connections and the order. -/
theorem name_registered_once {es pre pre' : List Event} {u u' : Site} {registration again : Visit}
    (h : after cfg pg sha256 .empty es = some s) (hv : Serves cfg pg sha256 es pre u registration)
    (hv' : Serves cfg pg sha256 es pre' u' again) (hother : pre ≠ pre') (hr : IsRegister registration.req)
    (hr' : IsRegister again.req) (hsame : Users.column pg 50 (pg.quote (formOf registration.req).username) =
      Users.column pg 50 (pg.quote (formOf again.req).username))
    (hok : statusOf cfg pg sha256 u.users registration = some .ok) : statusOf cfg pg sha256 u'.users again ≠ some .ok := by
  intro hok'
  rw [(serialized_after hv.state).table] at hok
  rw [(serialized_after hv'.state).table] at hok'
  have hreg : RegisteredAt cfg pg sha256 (s.visits.map (·.2)) (u.visits.map (·.2)) registration := ⟨hv.among h, hr, hok⟩
  have hreg' : RegisteredAt cfg pg sha256 (s.visits.map (·.2)) (u'.visits.map (·.2)) again := ⟨hv'.among h, hr', hok'⟩
  have hnot := not_registered_again hreg hreg' hsame
  have hnot' := not_registered_again hreg' hreg hsame.symm
  rw [List.length_map, List.length_map] at hnot hnot'
  rcases lt_trichotomy pre.length pre'.length with hlt | heq | hlt
  · have := hv.earlier hv' hlt
    omega
  · obtain ⟨j, c, fs, call, post, hes, -⟩ := hv.handler
    obtain ⟨j', c', fs', call', post', hes', -⟩ := hv'.handler
    exact hother (List.append_inj (hes.symm.trans hes') heq).1
  · have := hv'.earlier hv hlt
    omega

/-- "u" registers on one connection, and again on another. -/
def registerTwice : List Event :=
  registerThenLogin.take 16 ++ [.server (.session 0 (.complete (.read registerBytes))),
    .server (.session 1 (.complete (.read registerBytes))), .handle 0 (.read registerBytes) site Accounts.works,
    .handle 1 (.read registerBytes) site Accounts.works]

theorem second_not_registered : ∃ u u' first second,
    Serves databaseConfig .singleByte Accounts.digestOf registerTwice (registerTwice.take 18) u first ∧
    Serves databaseConfig .singleByte Accounts.digestOf registerTwice (registerTwice.take 19) u' second ∧
    statusOf databaseConfig .singleByte Accounts.digestOf u.users first = some .ok ∧
    statusOf databaseConfig .singleByte Accounts.digestOf u'.users second ≠ some .ok := by
  have hv : ((after databaseConfig .singleByte Accounts.digestOf .empty (registerTwice.take 18)).bind fun u =>
      (after databaseConfig .singleByte Accounts.digestOf .empty (registerTwice.take 19)).bind fun u' =>
      (after databaseConfig .singleByte Accounts.digestOf .empty registerTwice).bind fun _ =>
      (u.visitOf 0 (.read registerBytes) site Accounts.works).bind fun first =>
      (u'.visitOf 1 (.read registerBytes) site Accounts.works).map fun second =>
        decide (first.req.method = .post ∧ first.req.path = ascii "/api/register" ∧ second.req.method = .post ∧
          second.req.path = ascii "/api/register" ∧ (formOf first.req).username = (formOf second.req).username ∧
          statusOf databaseConfig .singleByte Accounts.digestOf u.users first = some .ok)) = some true := by decide +kernel
  obtain ⟨u, hu, hv⟩ := Option.bind_eq_some_iff.mp hv
  obtain ⟨u', hu', hv⟩ := Option.bind_eq_some_iff.mp hv
  obtain ⟨s, hs, hv⟩ := Option.bind_eq_some_iff.mp hv
  obtain ⟨first, hfirst, hv⟩ := Option.bind_eq_some_iff.mp hv
  obtain ⟨second, hsecond, hd⟩ := Option.map_eq_some_iff.mp hv
  obtain ⟨hm, hp, hm', hp', hname, hok⟩ := of_decide_eq_true hd
  have hserves : Serves databaseConfig .singleByte Accounts.digestOf registerTwice (registerTwice.take 18) u first :=
    ⟨hu, 0, _, _, _, [.handle 1 (.read registerBytes) site Accounts.works], rfl, hfirst⟩
  have hserves' : Serves databaseConfig .singleByte Accounts.digestOf registerTwice (registerTwice.take 19) u' second :=
    ⟨hu', 1, _, _, _, [], rfl, hsecond⟩
  have hother : registerTwice.take 18 ≠ registerTwice.take 19 := by
    intro heq
    cases congrArg List.length heq
  exact ⟨u, u', first, second, hserves, hserves', hok,
    name_registered_once hs hserves hserves' hother ⟨hm, hp⟩ ⟨hm', hp'⟩ (by rw [hname]) hok⟩

end Site

end BreWebServer.Server
