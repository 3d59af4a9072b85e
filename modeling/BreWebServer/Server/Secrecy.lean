/-
  BreWebServer.Server.Secrecy — what the responses tell of the stored passwords.

  Two tables are the same in public when they differ in the password column alone.
  `Blind` is what a session needs of a service so that a request other than a login is
  answered alike in states that a relation does not tell apart (`answer_alike`); the
  operations over the table are so for the tables that are the same in public
  (`operations_blind`). With that (`passwords_do_not_leak`): no sequence of requests other
  than logins tells two such tables apart, and a login tells whether the password's hash
  is stored under its own name, and no more.
-/

import BreWebServer.Server.HandleRequest
import BreWebServer.Service.UserService
import BreWebServer.Lib.Machine
import BreWebServer.Server.Static

namespace BreWebServer.Server

open BreWebServer.Lib BreWebServer.Cpp BreWebServer.Database BreWebServer.Http BreWebServer.Service
open BreWebServer.Service.UserTable

/-! ## Answers that do not tell two states apart -/

section Blindness

variable {δ : Type} {R : δ → δ → Prop}

/-- The operations behind the other routes answer related states alike. -/
structure Blind (service : UserService δ) (R : δ → δ → Prop) : Prop where
  returns : ∀ {d d'}, R d d' → service.returns d = service.returns d'
  register : ∀ {d d'}, R d d' → ∀ username password email,
    (service.register d username password email).1 = (service.register d' username password email).1 ∧
      R (service.register d username password email).2 (service.register d' username password email).2
  getAllUsers : ∀ {d d'}, R d d' → ∀ limit offset,
    (service.getAllUsers d limit offset).1 = (service.getAllUsers d' limit offset).1 ∧
      R (service.getAllUsers d limit offset).2 (service.getAllUsers d' limit offset).2
  getUserById : ∀ {d d'}, R d d' → ∀ id, (service.getUserById d id).1 = (service.getUserById d' id).1 ∧
    R (service.getUserById d id).2 (service.getUserById d' id).2

/-- The same response, or the same exception, and related states. -/
inductive Alike (R : δ → δ → Prop) : Except Exc (HttpResponse × δ) → Except Exc (HttpResponse × δ) → Prop
  | error (e : Exc) : Alike R (.error e) (.error e)
  | ok (response : HttpResponse) {d d' : δ} : R d d' → Alike R (.ok (response, d)) (.ok (response, d'))

variable {cfg : Config δ} {d d' : δ}

theorem Alike.map {x y : Except Exc (HttpResponse × δ)} (h : Alike R x y) (f : HttpResponse → HttpResponse) :
    Alike R (x.map fun r => (f r.1, r.2)) (y.map fun r => (f r.1, r.2)) := by
  cases h with
  | error e => exact .error e
  | ok response hd => exact .ok (f response) hd

/-- Calls that both come back or both do not. -/
theorem called_alike (hb : Blind cfg.service R) (h : R d d') {x y : HttpResponse × δ} (hxy : x.1 = y.1) (hR : R x.2 y.2) :
    Alike R (called cfg d x) (called cfg d' y) := by
  obtain ⟨response, e⟩ := x
  obtain ⟨response', e'⟩ := y
  obtain rfl : response = response' := hxy
  unfold called
  rw [hb.returns h]
  split
  · exact .ok response hR
  · exact .error .terminated

theorem handleApiRegister_alike (hb : Blind cfg.service R) (h : R d d') (req : HttpRequest) :
    Alike R (handleApiRegister cfg d req) (handleApiRegister cfg d' req) := by
  unfold handleApiRegister
  split
  · simp only
    split
    · exact .ok _ h
    · obtain ⟨h1, h2⟩ := hb.register h (extractParam req (ascii "username")) (extractParam req (ascii "password"))
        (extractParam req (ascii "email"))
      revert h1 h2
      cases cfg.service.register d _ _ _ with
      | mk success e =>
        cases cfg.service.register d' _ _ _ with
        | mk success' e' =>
          intro h1 h2
          obtain rfl : success = success' := h1
          cases success <;> exact called_alike hb h rfl h2
  · exact .ok _ h

theorem handleApiGetUsers_alike (hb : Blind cfg.service R) (h : R d d') :
    Alike R (handleApiGetUsers cfg d) (handleApiGetUsers cfg d') := by
  unfold handleApiGetUsers
  split
  · obtain ⟨h1, h2⟩ := hb.getAllUsers h 100 0
    simp only [h1]
    exact called_alike hb h rfl h2
  · exact .ok _ h

theorem handleApiGetUser_alike (hb : Blind cfg.service R) (h : R d d') (req : HttpRequest) :
    Alike R (handleApiGetUser cfg d req) (handleApiGetUser cfg d' req) := by
  unfold handleApiGetUser
  split
  · simp only
    split
    · exact .ok _ h
    · cases stoi (extractParam req (ascii "id")) with
      | error e => exact .error e
      | ok id =>
        obtain ⟨h1, h2⟩ := hb.getUserById h id
        revert h1 h2
        simp only
        cases cfg.service.getUserById d id with
        | mk user e =>
          cases cfg.service.getUserById d' id with
          | mk user' e' =>
            intro h1 h2
            obtain rfl : user = user' := h1
            cases user <;> exact called_alike hb h rfl h2
  · exact .ok _ h

/-- Every route but the login's. -/
theorem handleApi_alike (hb : Blind cfg.service R) (h : R d d') (sessionId : Nat) {req : HttpRequest} {path : Bytes}
    (hl : ¬ (path = ascii "/api/login" ∧ req.method = .post)) :
    Alike R (handleApi cfg sessionId d req path) (handleApi cfg sessionId d' req path) := by
  unfold handleApi
  split
  · exact .ok _ h
  split
  · exact .ok _ h
  split
  · exact handleApiRegister_alike hb h req
  split
  · exact handleApiGetUsers_alike hb h
  split
  · exact handleApiGetUser_alike hb h req
  · exact .ok _ h

theorem answer_alike (hb : Blind cfg.service R) (h : R d d') (sessionId : Nat) (fs : Fs) {req : HttpRequest}
    (hl : ¬ IsLogin req) : Alike R (answer cfg sessionId ⟨fs, d⟩ req) (answer cfg sessionId ⟨fs, d'⟩ req) := by
  have hl' : ¬ (routePath req = ascii "/api/login" ∧ req.method = .post) := by
    unfold routePath
    split
    · exact fun h => absurd h.1 (by decide)
    · exact fun h => hl ⟨h.2, h.1⟩
  unfold answer
  simp only
  split
  · exact (handleApi_alike hb h sessionId hl').map (·.setKeepAlive (wantsKeepAlive req))
  · cases serveStatic cfg fs (wantsKeepAlive req) (routePath req) with
    | error e => exact .error e
    | ok response => exact .ok response h

end Blindness

/-! ## Tables that are the same in public -/

/-- Two tables that differ in the password column alone. -/
structure SamePublic (u v : Users) : Prop where
  rows : u.rows.map (·.toPublicRow) = v.rows.map (·.toPublicRow)
  serial : u.serial = v.serial

variable {pg : Postgres} {sha256 : Bytes → List UInt8} {u v : Users}

/-- What is read off the public columns is the same. -/
theorem SamePublic.map (h : SamePublic u v) {β : Type} (f : PublicRow → β) :
    u.rows.map (fun row => f row.toPublicRow) = v.rows.map fun row => f row.toPublicRow := by
  have := congrArg (List.map f) h.rows
  simpa only [List.map_map, Function.comp_def] using this

theorem SamePublic.filter (h : SamePublic u v) (p : PublicRow → Bool) :
    (u.rows.filter fun row => p row.toPublicRow).map (·.toPublicRow) =
      (v.rows.filter fun row => p row.toPublicRow).map (·.toPublicRow) := by
  have := congrArg (List.filter p) h.rows
  simpa only [List.filter_map, Function.comp_def] using this

theorem SamePublic.selectById (h : SamePublic u v) (id : Int) :
    (u.selectById id).map (·.toPublicRow) = (v.selectById id).map (·.toPublicRow) :=
  h.filter fun row => decide (row.id = id)

theorem SamePublic.selectPage (h : SamePublic u v) (limit offset : Int) :
    (u.selectPage limit offset).map (·.map (·.toPublicRow)) = (v.selectPage limit offset).map (·.map (·.toPublicRow)) := by
  have hsort : ∀ w : Users, (w.rows.mergeSort fun a b => a.id ≤ b.id).map (·.toPublicRow) =
      (w.rows.map (·.toPublicRow)).mergeSort fun a b => a.id ≤ b.id :=
    fun w => List.map_mergeSort fun _ _ _ _ => rfl
  unfold Users.selectPage
  split
  · rfl
  · simp only [Option.map_some, List.map_take, List.map_drop, hsort, h.rows]

/-- An insert is refused by both tables, or keeps them the same in public. -/
theorem SamePublic.insert (h : SamePublic u v) (id : Nat) (username password email now : Bytes) :
    (u.insert pg id username password email now = none ∧ v.insert pg id username password email now = none) ∨
    ∃ u' v', u.insert pg id username password email now = some u' ∧
      v.insert pg id username password email now = some v' ∧ SamePublic u' v' := by
  unfold Users.insert
  cases Users.text pg username with
  | none => exact .inl ⟨rfl, rfl⟩
  | some username =>
  cases Users.text pg password with
  | none => exact .inl ⟨rfl, rfl⟩
  | some password =>
  cases Users.text pg email with
  | none => exact .inl ⟨rfl, rfl⟩
  | some email =>
  simp only [Option.bind_some]
  cases Users.varchar pg 50 username with
  | none => exact .inl ⟨rfl, rfl⟩
  | some username =>
  cases Users.varchar pg 255 password with
  | none => exact .inl ⟨rfl, rfl⟩
  | some password =>
  cases Users.varchar pg 100 email with
  | none => exact .inl ⟨rfl, rfl⟩
  | some email =>
  simp only [Option.bind_some]
  have hids : u.rows.map (·.id) = v.rows.map (·.id) := h.map (·.id)
  have hnames : u.rows.map (·.username) = v.rows.map (·.username) := h.map (·.username)
  by_cases hfree : id ≤ Users.maxSerial ∧ (id : Int) ∉ u.rows.map (·.id) ∧ username ∉ u.rows.map (·.username)
  · have hfree' := hfree
    rw [hids, hnames] at hfree'
    rw [dif_pos hfree, dif_pos hfree']
    refine .inr ⟨_, _, rfl, rfl, ?_, rfl⟩
    simp only [List.map_append, h.rows, List.map_cons, List.map_nil]
  · have hfree' := hfree
    rw [hids, hnames] at hfree'
    rw [dif_neg hfree, dif_neg hfree']
    exact .inl ⟨rfl, rfl⟩

/-! ## The operations do not tell them apart -/

/-- The same call meets tables that are the same in public. -/
structure SameBackend (d d' : Backend) : Prop where
  users : SamePublic d.users d'.users
  call : d.call = d'.call

theorem register_alike (h : SamePublic u v) (call : Call) (username password email : Bytes) :
    (register pg sha256 call u username password email).1 = (register pg sha256 call v username password email).1 ∧
      SamePublic (register pg sha256 call u username password email).2
        (register pg sha256 call v username password email).2 := by
  unfold register
  split
  · exact ⟨rfl, h⟩
  split
  · exact ⟨rfl, h⟩
  rw [← h.serial]
  rcases h.insert (u.serial + call.skipped + 1) (pg.quote username) (pg.quote (hashPassword sha256 call password))
    (pg.quote email) call.now with ⟨hu, hv⟩ | ⟨u', v', hu, hv, h'⟩
  · rw [hu, hv]
    exact ⟨rfl, h⟩
  · rw [hu, hv]
    exact ⟨rfl, h'⟩

theorem operations_blind : Blind (operations pg sha256) SameBackend := by
  refine ⟨?_, ?_, ?_, ?_⟩
  · intro d d' h
    simp only [operations, h.call]
  · intro d d' h username password email
    obtain ⟨h1, h2⟩ := @register_alike pg sha256 _ _ h.users d.call username password email
    simp only [operations, ← h.call]
    exact ⟨h1, h2, rfl⟩
  · intro d d' h limit offset
    refine ⟨?_, h⟩
    simp only [operations, getAllUsers, h.call, h.users.selectPage]
  · intro d d' h id
    refine ⟨?_, h⟩
    simp only [operations, getUserById, h.call, h.users.selectById]

/-- The password's hash is what is stored under the name, as the server reads it. -/
def OwnHash (pg : Postgres) (sha256 : Bytes → List UInt8) (call : Call) (users : Users) (username password : Bytes) : Prop :=
  ∃ row ∈ users.rows, Users.text pg (pg.quote username) = some row.username ∧
    row.password = hashPassword sha256 call password

/-- A name without NUL is read as it is. -/
theorem ownHash_plain {call : Call} {username password : Bytes} (h0 : 0 ∉ username) :
    OwnHash pg sha256 call u username password ↔ (pg.chars username).isSome = true ∧
      ∃ row ∈ u.rows, row.username = username ∧ row.password = hashPassword sha256 call password := by
  unfold OwnHash
  simp only [Users.text_quote h0]
  constructor
  · intro ⟨row, hm, hname, hp⟩
    obtain ⟨hc, hname⟩ := Option.ite_none_right_eq_some.mp hname
    exact ⟨hc, row, hm, (Option.some.inj hname).symm, hp⟩
  · intro hparts
    obtain ⟨hc, row, hm, rfl, hp⟩ := hparts
    exact ⟨row, hm, if_pos hc, hp⟩

/-- A login is answered by the public columns and by whether the hash is its own. -/
theorem login_alike (h : SamePublic u v) (call : Call) {username password : Bytes}
    (hown : OwnHash pg sha256 call u username password ↔ OwnHash pg sha256 call v username password) :
    login pg sha256 call u username password = login pg sha256 call v username password := by
  -- The row that the other table has under the name is the same but for its password.
  have hfind : ∀ {u v : Users}, SamePublic u v → (OwnHash pg sha256 call u username password →
      OwnHash pg sha256 call v username password) → ∀ {user}, login pg sha256 call u username password = some user →
      login pg sha256 call v username password = some user := by
    intro u v h hown user hl
    obtain ⟨hu, hp, hw, row, hm, hname, hpw, hread⟩ := login_some.mp hl
    obtain ⟨row', hm', hname', hpw'⟩ := hown ⟨row, hm, hname, hpw⟩
    have hpublic : row.toPublicRow ∈ v.rows.map (·.toPublicRow) := by
      rw [← h.rows]
      exact List.mem_map_of_mem hm
    obtain ⟨twin, htwin, he⟩ := List.mem_map.mp hpublic
    have hsame : twin = row' := by
      refine Users.eq_of_username htwin hm' ?_
      have : row.username = row'.username := Option.some.inj (hname.symm.trans hname')
      rw [← this, ← he]
    subst hsame
    exact login_some.mpr ⟨hu, hp, hw, twin, hm', hname', hpw', by rw [he]; exact hread⟩
  ext user
  exact ⟨hfind h hown.mp, hfind ⟨h.rows.symm, h.serial.symm⟩ hown.mpr⟩

/-! ## Sessions -/

/-- The server over the table `users`. -/
def Config.withUsers {δ : Type} (cfg : Config δ) (pg : Postgres) (sha256 : Bytes → List UInt8) : Config Backend :=
  { resourceDir := cfg.resourceDir, resourceDir_clear := cfg.resourceDir_clear, postgres := cfg.postgres,
    service := operations pg sha256, render := cfg.render, order := cfg.order }

/-- A request, with the session and the surroundings it is handled in. -/
structure Visit where
  sessionId : Nat
  fs : Fs
  call : Call
  req : HttpRequest

/-- The bytes written for a request, and the table after it. -/
def serve {δ : Type} (cfg : Config δ) (pg : Postgres) (sha256 : Bytes → List UInt8) (users : Users) (visit : Visit) :
    Except Exc Bytes × Users :=
  match answer (cfg.withUsers pg sha256) visit.sessionId ⟨visit.fs, ⟨users, visit.call⟩⟩ visit.req with
  | .ok (response, db) => (.ok (HttpResponse.encode cfg.order response), db.users)
  | .error e => (.error e, users)

variable {δ : Type} {cfg : Config δ}

theorem serve_alike (h : SamePublic u v) {visit : Visit} (hl : ¬ IsLogin visit.req) :
    (serve cfg pg sha256 u visit).1 = (serve cfg pg sha256 v visit).1 ∧
      SamePublic (serve cfg pg sha256 u visit).2 (serve cfg pg sha256 v visit).2 := by
  have hb : Blind (cfg.withUsers pg sha256).service SameBackend := operations_blind
  have ha := answer_alike hb (d := ⟨u, visit.call⟩) (show SameBackend _ ⟨v, visit.call⟩ from ⟨h, rfl⟩) visit.sessionId visit.fs hl
  unfold serve
  generalize answer (cfg.withUsers pg sha256) visit.sessionId ⟨visit.fs, ⟨u, visit.call⟩⟩ visit.req = x at ha ⊢
  generalize answer (cfg.withUsers pg sha256) visit.sessionId ⟨visit.fs, ⟨v, visit.call⟩⟩ visit.req = y at ha ⊢
  cases ha with
  | error e => exact ⟨rfl, h⟩
  | ok response hd => exact ⟨rfl, hd.users⟩

/-- The response to a login, by what the service answers. -/
def loginReply (cfg : Config δ) (req : HttpRequest) (user : Option User) : HttpResponse :=
  if cfg.postgres then
    if extractParam req (ascii "username") = [] ∨ extractParam req (ascii "password") = [] then
      jsonError cfg .badRequest (ascii "Missing username or password")
    else
      match user with
      | some user => jsonReply cfg [(ascii "user", .obj (userFields user))]
      | none => jsonError cfg .unauthorized (ascii "Invalid username or password")
  else postgresDisabled cfg

/-- The service's answer makes the response, if the call comes back. -/
theorem handleApiLogin_eq {cfg : Config δ} {db : δ} {req : HttpRequest} {user : Option User}
    (h : cfg.service.login db (extractParam req (ascii "username")) (extractParam req (ascii "password")) = (user, db)) :
    handleApiLogin cfg db req =
      if cfg.postgres = true ∧ (formOf req).Complete ∧ cfg.service.returns db = false then .error .terminated
      else .ok (loginReply cfg req user, db) := by
  unfold handleApiLogin loginReply
  simp only [complete_iff]
  by_cases hp : cfg.postgres = true
  · by_cases hne : extractParam req (ascii "username") = [] ∨ extractParam req (ascii "password") = []
    · simp only [hp, hne, if_true, not_true_eq_false, false_and, and_false, if_false]
    · simp only [hp, hne, if_true, if_false, not_false_eq_true, true_and, h]
      cases hr : cfg.service.returns db with
      | true =>
        rw [called_ok hr]
        cases user <;> rfl
      | false =>
        rw [called_lost hr]
        rfl
  · simp only [hp, false_and, if_false, Bool.false_eq_true]

/-- A login changes no row. -/
theorem serve_login (users : Users) {visit : Visit} (hl : IsLogin visit.req) :
    serve cfg pg sha256 users visit =
      (if cfg.postgres = true ∧ (formOf visit.req).Complete ∧ visit.call.returns = false then .error .terminated
        else .ok (HttpResponse.encode cfg.order ((loginReply (cfg.withUsers pg sha256) visit.req
          (login pg sha256 visit.call users (extractParam visit.req (ascii "username"))
            (extractParam visit.req (ascii "password")))).setKeepAlive (wantsKeepAlive visit.req))), users) := by
  have he : handleApiLogin (cfg.withUsers pg sha256) ⟨users, visit.call⟩ visit.req =
      if cfg.postgres = true ∧ (formOf visit.req).Complete ∧ visit.call.returns = false then .error .terminated
      else .ok (loginReply (cfg.withUsers pg sha256) visit.req (login pg sha256 visit.call users
        (extractParam visit.req (ascii "username")) (extractParam visit.req (ascii "password"))), ⟨users, visit.call⟩) :=
    handleApiLogin_eq rfl
  unfold serve
  rw [answer_login hl, he]
  by_cases hlost : cfg.postgres = true ∧ (formOf visit.req).Complete ∧ visit.call.returns = false
  · rw [if_pos hlost, if_pos hlost]
    rfl
  · rw [if_neg hlost, if_neg hlost]
    rfl

theorem passwords_do_not_leak (cfg : Config δ) (pg : Postgres) (sha256 : Bytes → List UInt8) (h : SamePublic u v) :
    (∀ visits : List Visit, (∀ visit ∈ visits, ¬ IsLogin visit.req) →
      (Machine.outputs (serve cfg pg sha256) u visits).1 = (Machine.outputs (serve cfg pg sha256) v visits).1 ∧
      SamePublic (Machine.outputs (serve cfg pg sha256) u visits).2 (Machine.outputs (serve cfg pg sha256) v visits).2) ∧
    ∀ visit : Visit, IsLogin visit.req →
      (OwnHash pg sha256 visit.call u (extractParam visit.req (ascii "username"))
          (extractParam visit.req (ascii "password")) ↔
        OwnHash pg sha256 visit.call v (extractParam visit.req (ascii "username"))
          (extractParam visit.req (ascii "password"))) →
      (serve cfg pg sha256 u visit).1 = (serve cfg pg sha256 v visit).1 ∧
      (serve cfg pg sha256 u visit).2 = u ∧ (serve cfg pg sha256 v visit).2 = v := by
  have hstep : ∀ {s t : Users} {visit : Visit}, SamePublic s t → ¬ IsLogin visit.req →
      (serve cfg pg sha256 s visit).1 = (serve cfg pg sha256 t visit).1 ∧
        SamePublic (serve cfg pg sha256 s visit).2 (serve cfg pg sha256 t visit).2 := fun h hl => serve_alike h hl
  refine ⟨fun visits hl => Machine.outputs_alike hstep visits hl h, ?_⟩
  intro visit hl hown
  rw [serve_login u hl, serve_login v hl, login_alike h visit.call hown]
  exact ⟨rfl, rfl, rfl⟩

def databaseConfig : Config Unit := { siteConfig with postgres := true }

/-- One user, with this in the password column. -/
def tableOf (password : Bytes) : Users :=
  ⟨[⟨⟨1, ascii "ada", some (ascii "ada@x"), some (ascii "1815-12-10")⟩, password⟩], 1, List.nodup_singleton _,
    List.nodup_singleton _⟩

theorem stored_hash_hidden :
    (Machine.outputs (serve databaseConfig .singleByte id) (tableOf (ascii "x"))
        [⟨1, site, ⟨true, false, true, 0, [], false⟩, requestFor .get (ascii "/api/users")⟩]).1 =
      (Machine.outputs (serve databaseConfig .singleByte id) (tableOf (ascii "y"))
        [⟨1, site, ⟨true, false, true, 0, [], false⟩, requestFor .get (ascii "/api/users")⟩]).1 :=
  ((passwords_do_not_leak databaseConfig .singleByte id (show SamePublic (tableOf (ascii "x")) (tableOf (ascii "y")) from
    ⟨rfl, rfl⟩)).1 _ (by simp [IsLogin, requestFor])).1

end BreWebServer.Server
