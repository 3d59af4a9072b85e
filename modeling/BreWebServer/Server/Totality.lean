/-
  BreWebServer.Server.Totality — which requests `HandleRequest` answers.

  (1) It sends one response for each request that it does not throw on, and it throws where
  `substr`, `stoi` or `canonical` does; where its call of `UserService` loses its connection
  for good, the process ends (`answer_ok_iff`).

  (2) `GET /api/user` reads its id with `stoi`, which takes a number in front of anything
  and throws on text that has none. So a request is answered as its id asks exactly when
  the whole value is a decimal `int` and the row of that id, if any, has no NULL that
  `GetUserById` would stumble over (`handled_once_iff`).
-/

import BreWebServer.Server.Framing
import BreWebServer.Server.Secrecy

namespace BreWebServer.Server

open BreWebServer.Lib BreWebServer.Cpp BreWebServer.Database BreWebServer.Http BreWebServer.Service
open BreWebServer.Service.UserTable

/-! ## Decimal integers -/

def inIntRange (v : Int) : Option Int := if v < -2 ^ 31 ∨ 2 ^ 31 ≤ v then none else some v

/-- A text that is all of it a decimal `int`. -/
def decimalInt (s : Bytes) : Option Int :=
  if s.head? = some 45 then
    if s.tail ≠ [] ∧ s.tail.all isDigit then inIntRange (-digitsValue s.tail) else none
  else if s ≠ [] ∧ s.all isDigit then inIntRange (digitsValue s)
  else none

theorem stoi_of_scan {s : Bytes} {neg : Bool} {n : Nat} {v : Int} (h : scanInteger s = some (neg, n))
    (hv : inIntRange (if neg then -n else n) = some v) : stoi s = .ok v := by
  unfold stoi
  simp only [h]
  unfold inIntRange at hv
  generalize (if neg = true then -(n : Int) else n) = w at hv ⊢
  split at hv
  · cases hv
  · rename_i hrange
    rw [if_neg hrange, Option.some.inj hv]

/-- `stoi` reads a decimal integer for what it is. -/
theorem stoi_of_decimalInt {s : Bytes} {v : Int} (h : decimalInt s = some v) : stoi s = .ok v := by
  unfold decimalInt at h
  split at h
  · rename_i hneg
    obtain ⟨tl, rfl⟩ := List.head?_eq_some_iff.mp hneg
    split at h
    · rename_i hd
      exact stoi_of_scan (scanInteger_minus hd.1 (List.all_eq_true.mp hd.2)) h
    · cases h
  · split at h
    · rename_i hd
      exact stoi_of_scan (scanInteger_digits hd.1 (List.all_eq_true.mp hd.2)) h
    · cases h

/-! ## One response for each request -/

section Handling

variable {δ : Type} {cfg : Config δ} {sessionId : Nat} {env : Env δ} {req : HttpRequest}

/-- No exception leaves a live session's `HandleRequest`, and it sends one response. -/
def HandledOnce (cfg : Config δ) (sessionId : Nat) (env : Env δ) (req : HttpRequest) : Prop :=
  ∀ s : Session δ, s.request = req → s.crashed = false →
    (s.handleRequest cfg sessionId env).crashed = false ∧
      ∃ bytes, (s.handleRequest cfg sessionId env).written = s.written ++ [bytes]

theorem handledOnce_iff : HandledOnce cfg sessionId env req ↔ ¬ Throws cfg env req := by
  rw [← answer_ok_iff cfg sessionId]
  constructor
  · intro h
    cases ha : answer cfg sessionId env req with
    | ok r => exact ⟨r, rfl⟩
    | error e =>
      have hlive := (h { Session.new with request := req } rfl rfl).1
      simp [Session.handleRequest, ha] at hlive
  · intro h s hs hlive
    obtain ⟨r, hr⟩ := h
    subst hs
    simp only [Session.handleRequest, hr]
    exact ⟨hlive, _, rfl⟩

/-- `GET /api/user` with an id, in the build with PostgreSQL. -/
def AsksForUser (cfg : Config δ) (req : HttpRequest) : Prop :=
  cfg.postgres = true ∧ req.path = ascii "/api/user" ∧ req.method = .get ∧ extractParam req (ascii "id") ≠ []

theorem throws_iff (hdir : canonical env.fs cfg.resourceDir ≠ none) :
    Throws cfg env req ↔ req.path = [] ∨ (AsksForUser cfg req ∧ ∃ e, stoi (extractParam req (ascii "id")) = .error e) ∨
      MakesCall cfg req ∧ cfg.service.returns env.db = false := by
  unfold Throws MisreadsId AsksForUser
  split
  · rename_i hapi
    have hne : req.path ≠ [] := by
      intro h
      rw [h] at hapi
      exact absurd hapi (by decide)
    simp only [hne, false_or, and_assoc]
  · rename_i hapi
    have hpaths : ∀ path ∈ [ascii "/api/login", ascii "/api/register", ascii "/api/users", ascii "/api/user"],
        apiPrefix <+: path := by decide
    have hno : ∀ path ∈ [ascii "/api/login", ascii "/api/register", ascii "/api/users", ascii "/api/user"],
        req.path ≠ path := by
      intro path hm h
      rw [h] at hapi
      exact hapi (hpaths path hm)
    simp only [List.forall_mem_cons] at hno
    obtain ⟨hl, hr, hus, hu, -⟩ := hno
    simp only [hdir, hu, or_false, false_and, and_false, MakesCall, IsLogin, IsRegister, IsGetUsers, IsGetUser, hl, hr, hus]

end Handling

/-! ## Users by id -/

section ById

variable {δ : Type} {cfg : Config δ} {pg : Postgres} {sha256 : Bytes → List UInt8} {sessionId : Nat} {env : Env Backend}
  {req : HttpRequest}

/-- The response with a user's fields. -/
def userReply (cfg : Config δ) (user : User) : HttpResponse :=
  jsonReply cfg [(ascii "user", .obj (userFields user ++ [(ascii "created_at", .str user.createdAt)]))]

def idReply (cfg : Config δ) : Option User → HttpResponse
  | some user => userReply cfg user
  | none => jsonError cfg .notFound (ascii "User not found")

/-- The request is answered as its id asks: 400 to one that is no decimal `int`, 404 to one
    that no row has, and else the row's user. -/
def AnswersById (cfg : Config Backend) (sessionId : Nat) (env : Env Backend) (req : HttpRequest) : Prop :=
  ∃ response db, answer cfg sessionId env req = .ok (response, db) ∧
    match decimalInt (extractParam req (ascii "id")) with
    | none => response.status = .badRequest
    | some id =>
      ((∀ row ∈ env.db.users.rows, row.id ≠ id) → response.status = .notFound) ∧
      ∀ row ∈ env.db.users.rows, row.id = id → response.status = .ok ∧
        ∃ user : User, user.id = id ∧ user.username = row.username ∧ user.email = row.email.getD [] ∧
          response.body = (userReply cfg user).body

/-- What the handler answers once `stoi` has read a number and the call has come back. -/
theorem answer_idReply (h : AsksForUser cfg req) {n : Int} (hn : stoi (extractParam req (ascii "id")) = .ok n)
    (hret : env.db.call.returns = true) :
    answer (cfg.withUsers pg sha256) sessionId env req =
      .ok ((idReply cfg (getUserById env.db.call env.db.users n)).setKeepAlive (wantsKeepAlive req), env.db) := by
  obtain ⟨hp, hpath, hm, hid⟩ : AsksForUser (cfg.withUsers pg sha256) req := h
  rw [answer_getUser ⟨hm, hpath⟩]
  have hservice : (cfg.withUsers pg sha256).service.getUserById env.db n =
    (getUserById env.db.call env.db.users n, env.db) := rfl
  unfold handleApiGetUser
  rw [if_pos hp]
  simp only [hid, if_false, hn, hservice]
  rw [called_ok (show (cfg.withUsers pg sha256).service.returns env.db = true from hret)]
  cases getUserById env.db.call env.db.users n <;> rfl

theorem status_idReply (user : Option User) (keepAlive : Bool) :
    ((idReply cfg user).setKeepAlive keepAlive).status = if user.isSome then .ok else .notFound := by
  cases user <;> rfl

/-- A row that `GetUserById` can read. -/
def Readable (row : Row) : Prop := row.email ≠ none ∧ row.createdAt ≠ none

theorem readable_iff (row : Row) : Readable row ↔ (readUser row.toPublicRow).isSome = true := by
  rw [Option.isSome_iff_ne_none, ne_eq, readUser_eq_none_iff, not_or]
  rfl

/-- Among the ids that `stoi` takes, the decimal ones of no row with a NULL in it are
    answered as they ask. -/
theorem answersById_iff (h : AsksForUser cfg req) (hw : env.db.call.works = true) {n : Int}
    (hn : stoi (extractParam req (ascii "id")) = .ok n) :
    AnswersById (cfg.withUsers pg sha256) sessionId env req ↔
      ∃ id, decimalInt (extractParam req (ascii "id")) = some id ∧
        ∀ row ∈ env.db.users.rows, row.id = id → Readable row := by
  have ha : answer (cfg.withUsers pg sha256) sessionId env req = _ := answer_idReply h hn (Call.returns_of_works hw)
  unfold AnswersById
  rw [ha]
  cases hd : decimalInt (extractParam req (ascii "id")) with
  | none =>
    refine iff_of_false ?_ (by simp)
    intro ⟨response, db, he, hstatus⟩
    cases he
    simp only [status_idReply] at hstatus
    cases hu : (getUserById env.db.call env.db.users n).isSome <;> simp [hu] at hstatus
  | some id =>
    obtain rfl : n = id := by
      have := stoi_of_decimalInt hd
      rw [hn] at this
      exact Except.ok.inj this
    constructor
    · intro hparts
      obtain ⟨response, db, he, -, hrows⟩ := hparts
      cases he
      refine ⟨n, rfl, ?_⟩
      intro row hm heq
      subst heq
      have hstatus := (hrows row hm rfl).1
      rw [status_idReply, getUserById_found hw hm] at hstatus
      rw [readable_iff]
      by_contra hnone
      rw [if_neg hnone] at hstatus
      cases hstatus
    · intro ⟨id, hid, hread⟩
      cases hid
      refine ⟨_, _, rfl, ?_, ?_⟩
      · intro hno
        rw [status_idReply, getUserById_missing hno]
        rfl
      · intro row hm heq
        subst heq
        obtain ⟨user, huser⟩ := Option.isSome_iff_exists.mp ((readable_iff row).mp (hread row hm rfl))
        rw [status_idReply, getUserById_found hw hm, huser]
        obtain ⟨hid, hname, hemail⟩ := readUser_some huser
        exact ⟨rfl, user, hid, hname, by rw [hemail]; rfl, rfl⟩

theorem handled_once_iff (cfg : Config δ) (pg : Postgres) (sha256 : Bytes → List UInt8) (sessionId : Nat)
    (env : Env Backend) (req : HttpRequest) (hdir : canonical env.fs cfg.resourceDir ≠ none) :
    (HandledOnce (cfg.withUsers pg sha256) sessionId env req ∧
      (AsksForUser cfg req → env.db.call.works = true → AnswersById (cfg.withUsers pg sha256) sessionId env req)) ↔
    req.path ≠ [] ∧ (MakesCall cfg req → env.db.call.returns = true) ∧
      (AsksForUser cfg req → (∃ n, stoi (extractParam req (ascii "id")) = .ok n) ∧
        (env.db.call.works = true → ∃ id, decimalInt (extractParam req (ascii "id")) = some id ∧
          ∀ row ∈ env.db.users.rows, row.id = id → Readable row)) := by
  have hthrows : Throws (cfg.withUsers pg sha256) env req ↔ req.path = [] ∨
      (AsksForUser cfg req ∧ ∃ e, stoi (extractParam req (ascii "id")) = .error e) ∨
      MakesCall cfg req ∧ env.db.call.returns = false := throws_iff (show canonical env.fs _ ≠ none from hdir)
  have hok : (∀ e, stoi (extractParam req (ascii "id")) ≠ .error e) ↔ ∃ n, stoi (extractParam req (ascii "id")) = .ok n := by
    cases stoi (extractParam req (ascii "id")) <;> simp
  rw [handledOnce_iff, hthrows, not_or, not_or, not_and, not_and]
  simp only [not_exists, Bool.not_eq_false]
  constructor
  · intro ⟨⟨hpath, hstoi, hcall⟩, hanswers⟩
    refine ⟨hpath, hcall, ?_⟩
    intro hask
    obtain ⟨n, hn⟩ := hok.mp (hstoi hask)
    exact ⟨⟨n, hn⟩, fun hw => (answersById_iff hask hw hn).mp (hanswers hask hw)⟩
  · intro ⟨hpath, hcall, hall⟩
    refine ⟨⟨hpath, fun hask => hok.mpr (hall hask).1, hcall⟩, ?_⟩
    intro hask hw
    obtain ⟨⟨n, hn⟩, hread⟩ := hall hask
    exact (answersById_iff hask hw hn).mpr (hread hw)

end ById

def siteEnv : Env Backend := ⟨site, ⟨tableOf (ascii "x"), ⟨true, false, true, 0, [], false⟩⟩⟩

theorem index_handled :
    (HandledOnce (databaseConfig.withUsers .singleByte id) 1 siteEnv (requestFor .get (ascii "/")) ∧
      (AsksForUser databaseConfig (requestFor .get (ascii "/")) → siteEnv.db.call.works = true →
        AnswersById (databaseConfig.withUsers .singleByte id) 1 siteEnv (requestFor .get (ascii "/")))) ↔
    ascii "/" ≠ [] ∧ (MakesCall databaseConfig (requestFor .get (ascii "/")) → siteEnv.db.call.returns = true) ∧
      (AsksForUser databaseConfig (requestFor .get (ascii "/")) →
        (∃ n, stoi (extractParam (requestFor .get (ascii "/")) (ascii "id")) = .ok n) ∧
        (siteEnv.db.call.works = true → ∃ id, decimalInt (extractParam (requestFor .get (ascii "/")) (ascii "id")) = some id ∧
          ∀ row ∈ siteEnv.db.users.rows, row.id = id → Readable row)) :=
  handled_once_iff databaseConfig .singleByte id 1 siteEnv (requestFor .get (ascii "/")) (by decide)

/-- The database has gone when a call is to give its connection back. -/
def lostEnv : Env Backend := ⟨site, ⟨tableOf (ascii "x"), ⟨true, true, true, 0, [], true⟩⟩⟩

/-- An empty path, an id that is no number, and a login that loses its connection: `Parse`
    accepts all three requests. -/
theorem parsed_requests_throw :
    let pathless := parse .fresh (ascii "GET  HTTP/1.1\r\n\r\n")
    let lettered := parse .fresh (ascii "GET /api/user HTTP/1.1\r\nContent-Length: 6\r\n\r\nid=abc")
    let login := parse .fresh (ascii "POST /api/login HTTP/1.1\r\nContent-Length: 21\r\n\r\nusername=u&password=p")
    (pathless.1 = .returned true ∧ ¬ HandledOnce (databaseConfig.withUsers .singleByte id) 1 siteEnv pathless.2.1) ∧
      (lettered.1 = .returned true ∧ ¬ HandledOnce (databaseConfig.withUsers .singleByte id) 1 siteEnv lettered.2.1) ∧
      (login.1 = .returned true ∧ ¬ HandledOnce (databaseConfig.withUsers .singleByte id) 1 lostEnv login.2.1) := by
  have hdir : canonical siteEnv.fs (databaseConfig.withUsers .singleByte id).resourceDir ≠ none := by decide
  have hdir' : canonical lostEnv.fs (databaseConfig.withUsers .singleByte id).resourceDir ≠ none := by decide
  simp only [handledOnce_iff, throws_iff hdir, throws_iff hdir', not_not]
  refine ⟨⟨by decide, .inl (by decide)⟩, ⟨by decide, .inr (.inl ⟨⟨rfl, by decide, by decide, by decide⟩,
    .invalidArgument, by decide⟩)⟩, by decide, .inr (.inr ⟨⟨rfl, .inl ⟨⟨by decide, by decide⟩, by decide⟩⟩, rfl⟩)⟩

end BreWebServer.Server
