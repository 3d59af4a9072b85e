/-
  BreWebServer.Server.StatusCodes — what 409, 401 and 404 of the user API tell.

  `UserService` answers a failure of the database as it answers a name that is taken, a
  password that is wrong and an id that no row has, and the handlers turn each into one
  status. So where a call comes back at all, such a status is to be believed exactly when
  the statement is carried out, the digest is computed and the row can be read
  (`statuses_true_iff`): with the pool not initialised every registration is a conflict
  (`outage_shown_as_conflict`).
-/

import BreWebServer.Server.Totality
import BreWebServer.Service.FailClosed

namespace BreWebServer.Server

open BreWebServer.Cpp BreWebServer.Database BreWebServer.Http BreWebServer.Service BreWebServer.Service.UserTable

/-! ## What a status is to mean -/

/-- The statuses that tell of what the table holds. -/
def findings : List HttpStatus := [.conflict, .unauthorized, .notFound]

/-- `finding` is answered only where `so` holds, and no finding is where the database failed. -/
def Truthful (cfg : Config Backend) (sessionId : Nat) (env : Env Backend) (req : HttpRequest) (finding : HttpStatus)
    (so failed : Prop) : Prop :=
  ∀ response db, answer cfg sessionId env req = .ok (response, db) →
    (response.status = finding → so) ∧ (failed → response.status ∉ findings)

/-- The registration's transaction fails, and not for its name: the pool or the connection
    does, a value is no text or too long, the sequence is exhausted or behind the ids. -/
def InsertFails (pg : Postgres) (sha256 : Bytes → List UInt8) (db : Backend) (form : Form) : Prop :=
  db.call.works = false ∨ Users.column pg 50 (pg.quote form.username) = none ∨
  Users.column pg 255 (pg.quote (hashPassword sha256 db.call form.password)) = none ∨
  Users.column pg 100 (pg.quote form.email) = none ∨ Users.maxSerial < db.users.serial + db.call.skipped + 1 ∨
  ∃ row ∈ db.users.rows, row.id = (db.users.serial + db.call.skipped + 1 : Nat)

/-- The query for a name fails. -/
def SelectFails (pg : Postgres) (db : Backend) (username : Bytes) : Prop :=
  db.call.works = false ∨ Users.text pg (pg.quote username) = none

section

variable {δ : Type} (cfg : Config δ) (pg : Postgres) (sha256 : Bytes → List UInt8) (sessionId : Nat) (env : Env Backend)
  (req : HttpRequest)

/-- 409 only if a row has the name. -/
def RegisterTrue : Prop :=
  Truthful (cfg.withUsers pg sha256) sessionId env req .conflict
    (∃ row ∈ env.db.users.rows, row.username = (formOf req).username) (InsertFails pg sha256 env.db (formOf req))

/-- 401 only if no row has the name with the password's hash. -/
def LoginTrue : Prop :=
  Truthful (cfg.withUsers pg sha256) sessionId env req .unauthorized
    (∀ row ∈ env.db.users.rows, row.username = (formOf req).username → row.password ≠ hex (sha256 (formOf req).password))
    (SelectFails pg env.db (formOf req).username)

/-- 404 only if no row has the id. -/
def GetUserTrue : Prop :=
  Truthful (cfg.withUsers pg sha256) sessionId env req .notFound
    (∀ n, stoi (extractParam req (ascii "id")) = .ok n → ∀ row ∈ env.db.users.rows, row.id ≠ n)
    (env.db.call.works = false)

/-- The row is inserted or its name is taken; a name that the column cuts to one that is
    taken is itself taken. -/
def Registers : Prop :=
  ¬ InsertFails pg sha256 env.db (formOf req) ∧
  ∀ row ∈ env.db.users.rows, Users.column pg 50 (pg.quote (formOf req).username) = some row.username →
    ∃ same ∈ env.db.users.rows, same.username = (formOf req).username

/-- The query is carried out. If a row has the name and the password's hash, the digest is
    computed, and the row has no NULL. -/
def LogsIn : Prop :=
  ¬ SelectFails pg env.db (formOf req).username ∧
  ∀ row ∈ env.db.users.rows, row.username = (formOf req).username → row.password = hex (sha256 (formOf req).password) →
    env.db.call.digest = true ∧ Readable row

/-- The query is carried out, and the row of the id, if any, has no NULL. -/
def Fetches : Prop :=
  ∀ n, stoi (extractParam req (ascii "id")) = .ok n →
    env.db.call.works = true ∧ ∀ row ∈ env.db.users.rows, row.id = n → Readable row

end

variable {δ : Type} {cfg : Config δ} {pg : Postgres} {sha256 : Bytes → List UInt8} {sessionId : Nat} {env : Env Backend}
  {req : HttpRequest} {db : Backend} {form : Form}

/-! ## What the service refuses for -/

theorem register_false_iff (hc : form.Complete) :
    (register pg sha256 db.call db.users form.username form.password form.email).1 = false ↔
      InsertFails pg sha256 db form ∨
      ∃ row ∈ db.users.rows, Users.column pg 50 (pg.quote form.username) = some row.username := by
  rw [register_eq_false_iff, Users.insert_eq_none_iff]
  unfold InsertFails
  simp only [hc.1, hc.2, false_or, or_assoc]

theorem login_none_of_fails (h : SelectFails pg db form.username) :
    login pg sha256 db.call db.users form.username form.password = none := by
  rw [Option.eq_none_iff_forall_ne_some]
  intro user hl
  obtain ⟨-, -, hw, row, -, htext, -⟩ := login_some.mp hl
  rcases h with h | h
  · rw [hw] at h
    cases h
  · rw [htext] at h
    cases h

/-- A login with the right password finds its user where the digest and the row allow it. -/
theorem login_right_iff (hsha : ∀ password, (sha256 password).length = 32) (hc : form.Complete) {row : Row}
    (hm : row ∈ db.users.rows) (hclear : 0 ∉ row.username) (hname : row.username = form.username)
    (hpassword : row.password = hex (sha256 form.password)) (hs : ¬ SelectFails pg db form.username) :
    login pg sha256 db.call db.users form.username form.password ≠ none ↔ db.call.digest = true ∧ Readable row := by
  rw [SelectFails, not_or, Bool.not_eq_false] at hs
  obtain ⟨hw, hs⟩ := hs
  obtain ⟨t, ht⟩ := Option.ne_none_iff_exists'.mp hs
  rw [hname] at hclear
  obtain rfl := Users.text_quote_some hclear ht
  refine ⟨?_, ?_⟩
  · intro hl
    obtain ⟨user, hl⟩ := Option.ne_none_iff_exists'.mp hl
    obtain ⟨-, -, -, found, hfound, htext, hhash, hread⟩ := login_some.mp hl
    have hsame : found = row := by
      rw [ht] at htext
      exact Users.eq_of_username hfound hm ((Option.some.inj htext).symm.trans hname.symm)
    subst hsame
    refine ⟨?_, (readable_iff found).mpr (by rw [hread]; rfl)⟩
    by_contra hd
    rw [hpassword, hashPassword_failed (by simpa using hd)] at hhash
    exact hex_ne_nil (hsha form.password) hhash
  · intro hparts
    obtain ⟨hd, hread⟩ := hparts
    obtain ⟨user, huser⟩ := Option.isSome_iff_exists.mp ((readable_iff row).mp hread)
    have hl : login pg sha256 db.call db.users form.username form.password = some user :=
      login_some.mpr ⟨hc.1, hc.2, hw, row, hm, by rw [ht, hname],
        by rw [hpassword, hashPassword_digested hd], huser⟩
    rw [hl]
    exact Option.some_ne_none user

theorem getUserById_right_iff {n : Int} :
    (getUserById db.call db.users n = none → (∀ row ∈ db.users.rows, row.id ≠ n) ∧ ¬ db.call.works = false) ↔
      db.call.works = true ∧ ∀ row ∈ db.users.rows, row.id = n → Readable row := by
  by_cases hw : db.call.works = true
  · simp only [hw, Bool.true_eq_false, not_false_eq_true, and_true, true_and]
    refine ⟨?_, ?_⟩
    · intro h row hm hid
      subst hid
      rw [readable_iff, ← getUserById_found hw hm, Option.isSome_iff_ne_none]
      exact fun hnone => h hnone row hm rfl
    · intro h hnone row hm hid
      subst hid
      have hread := (readable_iff row).mp (h row hm rfl)
      rw [← getUserById_found hw hm, hnone] at hread
      cases hread
  · have hw' : db.call.works = false := by simpa using hw
    have hnone : getUserById db.call db.users n = none := by rw [getUserById, if_pos hw']
    simp [hnone, hw']

/-! ## What the handlers make of it -/

section Statuses

variable {cfg : Config Backend} {finding : HttpStatus} {so failed : Prop} {response : HttpResponse}

theorem truthful_iff (ha : answer cfg sessionId env req = .ok (response, db)) :
    Truthful cfg sessionId env req finding so failed ↔
      (response.status = finding → so) ∧ (failed → response.status ∉ findings) := by
  unfold Truthful
  rw [ha]
  refine ⟨?_, ?_⟩
  · intro h
    exact h response db rfl
  · intro h response' db' he
    cases he
    exact h

/-- A status that is no finding tells nothing wrong. -/
theorem truthful_of_other (ha : answer cfg sessionId env req = .ok (response, db)) (hf : finding ∈ findings)
    (hs : response.status ∉ findings) : Truthful cfg sessionId env req finding so failed := by
  refine (truthful_iff ha).mpr ⟨?_, fun _ => hs⟩
  intro he
  rw [he] at hs
  exact absurd hf hs

/-- Where a refusal of the service makes the status, it has to be for the right reason. -/
theorem truthful_iff_refused {refused : Prop} [Decidable refused]
    (ha : answer cfg sessionId env req = .ok (response, db)) (hf : finding ∈ findings)
    (hs : response.status = if refused then finding else .ok) :
    Truthful cfg sessionId env req finding so failed ↔ (refused → so ∧ ¬ failed) := by
  rw [truthful_iff ha, hs]
  have hok : HttpStatus.ok ∉ findings := by decide
  by_cases hr : refused
  · simp [hr, hf]
  · have hne : HttpStatus.ok ≠ finding := by
      intro he
      rw [he] at hok
      exact hok hf
    simp [hr, hok, hne]

theorem disabled_tells_nothing (cfg : Config Backend) : (postgresDisabled cfg).status ∉ findings := by
  show HttpStatus.serviceUnavailable ∉ findings
  decide

theorem badRequest_tells_nothing (cfg : Config Backend) (error : Bytes) :
    (jsonError cfg .badRequest error).status ∉ findings := by
  show HttpStatus.badRequest ∉ findings
  decide

/-- A process that ended answers nothing. -/
theorem truthful_of_error {e : Exc} (ha : answer cfg sessionId env req = .error e) :
    Truthful cfg sessionId env req finding so failed := by
  intro response db h
  rw [ha] at h
  cases h

end Statuses

/-! ## The three requests -/

/-- The response to a registration, by what the service answers. -/
def registerReply (cfg : Config δ) (req : HttpRequest) (success : Bool) : HttpResponse :=
  if cfg.postgres then
    if extractParam req (ascii "username") = [] ∨ extractParam req (ascii "password") = [] then
      jsonError cfg .badRequest (ascii "Missing username or password")
    else if success then jsonReply cfg [(ascii "message", .str (ascii "User registered successfully"))]
    else jsonError cfg .conflict (ascii "Username already exists")
  else postgresDisabled cfg

/-- The service's answer makes the response, if the call comes back; one is made where the form is
    complete. -/
theorem handleApiRegister_eq {δ : Type} {cfg : Config δ} {db db' : δ} {req : HttpRequest} {success : Bool}
    (h : cfg.service.register db (extractParam req (ascii "username")) (extractParam req (ascii "password"))
      (extractParam req (ascii "email")) = (success, db')) :
    handleApiRegister cfg db req =
      if cfg.postgres = true ∧ (formOf req).Complete then
        if cfg.service.returns db then .ok (registerReply cfg req success, db') else .error .terminated
      else .ok (registerReply cfg req success, db) := by
  unfold handleApiRegister registerReply
  simp only [complete_iff]
  by_cases hp : cfg.postgres = true
  · by_cases hne : extractParam req (ascii "username") = [] ∨ extractParam req (ascii "password") = []
    · simp only [hp, hne, if_true, not_true_eq_false, and_false, if_false]
    · simp only [hp, hne, if_true, if_false, not_false_eq_true, and_self, h]
      cases hr : cfg.service.returns db with
      | true =>
        rw [called_ok hr]
        cases success <;> rfl
      | false =>
        rw [called_lost hr]
        rfl
  · simp only [hp, false_and, if_false, Bool.false_eq_true]

theorem registerReply_status {cfg : Config δ} (hp : cfg.postgres = true) (hc : (formOf req).Complete) (success : Bool) :
    (registerReply cfg req success).status = if success = false then .conflict else .ok := by
  have hne : ¬ (extractParam req (ascii "username") = [] ∨ extractParam req (ascii "password") = []) := not_or.mpr hc
  unfold registerReply
  rw [if_pos hp, if_neg hne]
  cases success <;> rfl

theorem register_true_iff (hr : IsRegister req) (hc : (formOf req).Complete) :
    RegisterTrue cfg pg sha256 sessionId env req ↔
      (cfg.postgres = true → env.db.call.returns = true → Registers pg sha256 env req) := by
  have ha : answer (cfg.withUsers pg sha256) sessionId env req = _ := answer_register hr
  rw [handleApiRegister_eq rfl] at ha
  unfold RegisterTrue Registers
  by_cases hp : cfg.postgres = true
  · have hp' : (cfg.withUsers pg sha256).postgres = true := hp
    rw [if_pos ⟨hp', hc⟩] at ha
    cases hret : env.db.call.returns with
    | true =>
      rw [if_pos (show (cfg.withUsers pg sha256).service.returns env.db = true from hret)] at ha
      rw [truthful_iff_refused ha (by decide) (registerReply_status hp' hc _)]
      have hfalse := @register_false_iff pg sha256 env.db (formOf req) hc
      simp only [hp, forall_const]
      refine ⟨?_, ?_⟩
      · intro h
        have hworks : ¬ InsertFails pg sha256 env.db (formOf req) := fun hf => (h (hfalse.mpr (.inl hf))).2 hf
        exact ⟨hworks, fun row hm hname => (h (hfalse.mpr (.inr ⟨row, hm, hname⟩))).1⟩
      · intro hparts hcases
        obtain ⟨hworks, htaken⟩ := hparts
        rcases hfalse.mp hcases with hf | ⟨row, hm, hname⟩
        · exact absurd hf hworks
        · exact ⟨htaken row hm hname, hworks⟩
    | false =>
      rw [if_neg (show ¬ (cfg.withUsers pg sha256).service.returns env.db = true by
        rw [Bool.not_eq_true]; exact hret)] at ha
      exact iff_of_true (truthful_of_error ha) (fun _ h => by cases h)
  · rw [if_neg (fun h => hp h.1)] at ha
    refine iff_of_true (truthful_of_other ha (by decide) ?_) (fun h => absurd h hp)
    unfold registerReply
    rw [if_neg (show ¬ (cfg.withUsers pg sha256).postgres = true from hp)]
    exact disabled_tells_nothing (cfg.withUsers pg sha256)

theorem loginReply_status {cfg : Config δ} (hp : cfg.postgres = true) (hc : (formOf req).Complete) (user : Option User) :
    (loginReply cfg req user).status = if user = none then .unauthorized else .ok := by
  have hne : ¬ (extractParam req (ascii "username") = [] ∨ extractParam req (ascii "password") = []) := not_or.mpr hc
  unfold loginReply
  rw [if_pos hp, if_neg hne]
  cases user <;> rfl

theorem login_true_iff (hsha : ∀ password, (sha256 password).length = 32)
    (hclear : ∀ row ∈ env.db.users.rows, 0 ∉ row.username) (hl : IsLogin req) :
    LoginTrue cfg pg sha256 sessionId env req ↔
      (cfg.postgres = true → (formOf req).Complete → env.db.call.returns = true → LogsIn pg sha256 env req) := by
  have ha : answer (cfg.withUsers pg sha256) sessionId env req = _ := answer_login hl
  have hreply : handleApiLogin (cfg.withUsers pg sha256) env.db req =
      if cfg.postgres = true ∧ (formOf req).Complete ∧ env.db.call.returns = false then .error .terminated
      else .ok (loginReply (cfg.withUsers pg sha256) req
        (login pg sha256 env.db.call env.db.users (formOf req).username (formOf req).password), env.db) :=
    handleApiLogin_eq rfl
  rw [hreply] at ha
  unfold LoginTrue LogsIn
  by_cases hp : cfg.postgres = true
  · have hp' : (cfg.withUsers pg sha256).postgres = true := hp
    by_cases hc : (formOf req).Complete
    · cases hret : env.db.call.returns with
      | true =>
        rw [if_neg (fun h => by rw [hret] at h; cases h.2.2)] at ha
        rw [truthful_iff_refused ha (by decide) (loginReply_status hp' hc _)]
        simp only [hp, hc, forall_const]
        refine ⟨?_, ?_⟩
        · intro h
          have hworks : ¬ SelectFails pg env.db (formOf req).username := fun hf => (h (login_none_of_fails hf)).2 hf
          refine ⟨hworks, ?_⟩
          intro row hm hname hpassword
          rw [← login_right_iff hsha hc hm (hclear row hm) hname hpassword hworks]
          exact fun hnone => (h hnone).1 row hm hname hpassword
        · intro hparts hnone
          obtain ⟨hworks, hright⟩ := hparts
          refine ⟨?_, hworks⟩
          intro row hm hname hpassword
          exact (login_right_iff hsha hc hm (hclear row hm) hname hpassword hworks).mpr
            (hright row hm hname hpassword) hnone
      | false =>
        rw [if_pos ⟨hp, hc, hret⟩] at ha
        exact iff_of_true (truthful_of_error ha) (fun _ _ h => by cases h)
    · have hempty : extractParam req (ascii "username") = [] ∨ extractParam req (ascii "password") = [] := by
        by_contra hne
        exact hc (not_or.mp hne)
      rw [if_neg (fun h => hc h.2.1)] at ha
      refine iff_of_true (truthful_of_other ha (by decide) ?_) (fun _ h => absurd h hc)
      unfold loginReply
      rw [if_pos hp', if_pos hempty]
      exact badRequest_tells_nothing (cfg.withUsers pg sha256) (ascii "Missing username or password")
  · rw [if_neg (fun h => hp h.1)] at ha
    refine iff_of_true (truthful_of_other ha (by decide) ?_) (fun h => absurd h hp)
    unfold loginReply
    rw [if_neg (show ¬ (cfg.withUsers pg sha256).postgres = true from hp)]
    exact disabled_tells_nothing (cfg.withUsers pg sha256)

/-- Without a number to ask for, the handler makes no finding. -/
theorem getUser_numberless {cfg : Config Backend} {e : Exc} {so failed : Prop} (hg : IsGetUser req)
    (he : stoi (extractParam req (ascii "id")) = .error e) : Truthful cfg sessionId env req .notFound so failed := by
  have ha : answer cfg sessionId env req = _ := answer_getUser hg
  unfold handleApiGetUser at ha
  by_cases hp : cfg.postgres = true
  · rw [if_pos hp] at ha
    by_cases hid : extractParam req (ascii "id") = []
    · simp only [hid, if_true] at ha
      exact truthful_of_other ha (by decide) (badRequest_tells_nothing cfg (ascii "Missing user id"))
    · simp only [hid, if_false, he] at ha
      exact truthful_of_error ha
  · rw [if_neg hp] at ha
    exact truthful_of_other ha (by decide) (disabled_tells_nothing cfg)

theorem getUser_true_iff (hg : IsGetUser req) :
    GetUserTrue cfg pg sha256 sessionId env req ↔
      (cfg.postgres = true → env.db.call.returns = true → Fetches env req) := by
  unfold GetUserTrue Fetches
  cases hstoi : stoi (extractParam req (ascii "id")) with
  | error e =>
    refine iff_of_true (getUser_numberless hg hstoi) ?_
    intro _ _ n h
    cases h
  | ok n =>
    have hid : extractParam req (ascii "id") ≠ [] := by
      intro hid
      rw [hid] at hstoi
      cases hstoi
    by_cases hp : cfg.postgres = true
    · have hask : AsksForUser cfg req := ⟨hp, hg.2, hg.1, hid⟩
      cases hret : env.db.call.returns with
      | true =>
        have ha : answer (cfg.withUsers pg sha256) sessionId env req = _ := answer_idReply hask hstoi hret
        have hstatus : ((idReply cfg (getUserById env.db.call env.db.users n)).setKeepAlive (wantsKeepAlive req)).status =
            if getUserById env.db.call env.db.users n = none then .notFound else .ok := by
          rw [status_idReply]
          cases getUserById env.db.call env.db.users n <;> rfl
        rw [truthful_iff_refused ha (by decide) hstatus]
        simp only [hp, forall_const, Except.ok.injEq, forall_eq']
        exact getUserById_right_iff
      | false =>
        have hthrows : Throws (cfg.withUsers pg sha256) env req := by
          rw [Throws, if_pos (by rw [hg.2]; decide)]
          exact .inr ⟨⟨hp, .inr (.inr (.inr ⟨hg, n, hstoi⟩))⟩, hret⟩
        refine iff_of_true ?_ (fun _ h => by cases h)
        intro response db hok
        exact absurd hthrows ((answer_ok_iff _ sessionId env req).mp ⟨_, hok⟩)
    · have ha : answer (cfg.withUsers pg sha256) sessionId env req = _ := answer_getUser hg
      unfold handleApiGetUser at ha
      rw [if_neg (show ¬ (cfg.withUsers pg sha256).postgres = true from hp)] at ha
      exact iff_of_true (truthful_of_other ha (by decide) (disabled_tells_nothing (cfg.withUsers pg sha256)))
        (fun h => absurd h hp)

/-! ## All of them -/

/-- Every finding of the three requests is one, and none of them is a failure. -/
structure StatusesTrue (cfg : Config δ) (pg : Postgres) (sha256 : Bytes → List UInt8) (sessionId : Nat)
    (env : Env Backend) (req : HttpRequest) : Prop where
  register : IsRegister req → (formOf req).Complete → RegisterTrue cfg pg sha256 sessionId env req
  login : IsLogin req → LoginTrue cfg pg sha256 sessionId env req
  getUser : IsGetUser req → GetUserTrue cfg pg sha256 sessionId env req

/-- What the request asks of the database is done. -/
structure CarriedOut (pg : Postgres) (sha256 : Bytes → List UInt8) (env : Env Backend) (req : HttpRequest) : Prop where
  register : IsRegister req → (formOf req).Complete → Registers pg sha256 env req
  login : IsLogin req → (formOf req).Complete → LogsIn pg sha256 env req
  getUser : IsGetUser req → Fetches env req

theorem statuses_true_iff (cfg : Config δ) (pg : Postgres) (sha256 : Bytes → List UInt8)
    (hsha : ∀ password, (sha256 password).length = 32) (sessionId : Nat) (env : Env Backend) (req : HttpRequest)
    (hclear : ∀ row ∈ env.db.users.rows, 0 ∉ row.username) :
    StatusesTrue cfg pg sha256 sessionId env req ↔
      (cfg.postgres = true → env.db.call.returns = true → CarriedOut pg sha256 env req) := by
  refine ⟨?_, ?_⟩
  · intro h hp hret
    refine ⟨?_, ?_, ?_⟩
    · intro hr hc
      exact (register_true_iff hr hc).mp (h.register hr hc) hp hret
    · intro hl hc
      exact (login_true_iff hsha hclear hl).mp (h.login hl) hp hc hret
    · intro hg
      exact (getUser_true_iff hg).mp (h.getUser hg) hp hret
  · intro h
    refine ⟨?_, ?_, ?_⟩
    · intro hr hc
      exact (register_true_iff hr hc).mpr (fun hp hret => (h hp hret).register hr hc)
    · intro hl
      exact (login_true_iff hsha hclear hl).mpr (fun hp hc hret => (h hp hret).login hl hc)
    · intro hg
      exact (getUser_true_iff hg).mpr (fun hp hret => (h hp hret).getUser hg)

/-- "u" registers with "p". -/
def registration : HttpRequest :=
  { requestFor .post (ascii "/api/register") with body := ascii "username=u&password=p&email=" }

/-- The pool is not initialised. -/
def outage : Env Backend := ⟨site, ⟨.empty, { Accounts.works with initialized := false }⟩⟩

theorem outage_shown_as_conflict : ¬ StatusesTrue databaseConfig .singleByte Accounts.digestOf 1 outage registration := by
  intro h
  have hr : IsRegister registration := ⟨rfl, rfl⟩
  have hc : (formOf registration).Complete := by
    unfold Form.Complete
    decide
  have hfails : InsertFails .singleByte Accounts.digestOf outage.db (formOf registration) := .inl rfl
  exact ((register_true_iff hr hc).mp (h.register hr hc) rfl rfl).1 hfails

theorem registration_carried_out :
    StatusesTrue databaseConfig .singleByte Accounts.digestOf 1 outage registration ↔
      (databaseConfig.postgres = true → outage.db.call.returns = true →
        CarriedOut .singleByte Accounts.digestOf outage registration) :=
  statuses_true_iff databaseConfig .singleByte Accounts.digestOf
    (fun password => by unfold Accounts.digestOf; split <;> rfl) 1 outage registration (by intro row hm; cases hm)

end BreWebServer.Server
