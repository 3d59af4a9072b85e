/-
  BreWebServer.Server.HandleRequest — `Session::HandleRequest` and its API handlers.

  `answer` is the response on which a request's handling calls `Build`, and the database
  after it; of the session it reads the id alone. An exception leaves
  `HandleRequest` where a library call of it throws: `substr` on an empty path, `canonical`
  on the resource directory, `stoi` on an id. Nothing leaves a handler whose call of
  `UserService` ends the process.
-/

import BreWebServer.Http.Response
import BreWebServer.Service.Interface

namespace BreWebServer.Server

open BreWebServer.Lib BreWebServer.Cpp BreWebServer.Http BreWebServer.Service

/-- What a session is configured and built with: `HAVE_POSTGRESQL`, the user service, the
    JSON renderer (`bre::json::Value::ToString`) and the header maps' iteration order. -/
structure Config (δ : Type) where
  resourceDir : Bytes
  /-- No directory's path has a NUL in it. -/
  resourceDir_clear : 0 ∉ resourceDir
  postgres : Bool
  service : UserService δ
  render : Json → Bytes
  order : HttpResponse.MapOrder

/-- The file system and the database a request is handled in. -/
structure Env (δ : Type) where
  fs : Fs
  db : δ

variable {δ : Type} (cfg : Config δ)

/-! ## The API handlers -/

def extractParam (req : HttpRequest) (key : Bytes) : Bytes :=
  match cut (key ++ ascii "=") req.body with
  | none => []
  | some (_, tail) => (tail.takeWhile (· != 38)).map fun c => if c = 43 then sp else c

def jsonError (status : HttpStatus) (error : Bytes) : HttpResponse :=
  (HttpResponse.makeJsonResponse
    (cfg.render (.obj [(ascii "success", .bool false), (ascii "error", .str error)]))).setStatus status

def jsonReply (fields : List (Bytes × Json)) : HttpResponse :=
  HttpResponse.makeJsonResponse (cfg.render (.obj ((ascii "success", .bool true) :: fields)))

def postgresDisabled : HttpResponse := jsonError cfg .serviceUnavailable (ascii "PostgreSQL support is not enabled")

def userFields (user : User) : List (Bytes × Json) :=
  [(ascii "id", .num user.id), (ascii "username", .str user.username), (ascii "email", .str user.email)]

/-- What a handler makes of a call of the service, if the call comes back. -/
def called (db : δ) (x : HttpResponse × δ) : Except Exc (HttpResponse × δ) :=
  if cfg.service.returns db then .ok x else .error .terminated

def handleApiLogin (db : δ) (req : HttpRequest) : Except Exc (HttpResponse × δ) :=
  if cfg.postgres then
    let username := extractParam req (ascii "username")
    let password := extractParam req (ascii "password")
    if username = [] ∨ password = [] then .ok (jsonError cfg .badRequest (ascii "Missing username or password"), db)
    else
      called cfg db <|
        match cfg.service.login db username password with
        | (some user, db) => (jsonReply cfg [(ascii "user", .obj (userFields user))], db)
        | (none, db) => (jsonError cfg .unauthorized (ascii "Invalid username or password"), db)
  else .ok (postgresDisabled cfg, db)

def handleApiRegister (db : δ) (req : HttpRequest) : Except Exc (HttpResponse × δ) :=
  if cfg.postgres then
    let username := extractParam req (ascii "username")
    let password := extractParam req (ascii "password")
    let email := extractParam req (ascii "email")
    if username = [] ∨ password = [] then .ok (jsonError cfg .badRequest (ascii "Missing username or password"), db)
    else
      called cfg db <|
        match cfg.service.register db username password email with
        | (true, db) => (jsonReply cfg [(ascii "message", .str (ascii "User registered successfully"))], db)
        | (false, db) => (jsonError cfg .conflict (ascii "Username already exists"), db)
  else .ok (postgresDisabled cfg, db)

/-- `json["users"]` is made by the first `Append`: no users, no field. -/
def handleApiGetUsers (db : δ) : Except Exc (HttpResponse × δ) :=
  if cfg.postgres then
    called cfg db <|
      let (users, db) := cfg.service.getAllUsers db 100 0
      let items := users.map fun user => Json.obj (userFields user)
      (jsonReply cfg (if items = [] then [] else [(ascii "users", .arr items)]), db)
  else .ok (postgresDisabled cfg, db)

def handleApiGetUser (db : δ) (req : HttpRequest) : Except Exc (HttpResponse × δ) :=
  if cfg.postgres then
    let idStr := extractParam req (ascii "id")
    if idStr = [] then .ok (jsonError cfg .badRequest (ascii "Missing user id"), db)
    else
      match stoi idStr with
      | .error e => .error e
      | .ok id =>
        called cfg db <|
          match cfg.service.getUserById db id with
          | (some user, db) =>
            (jsonReply cfg [(ascii "user", .obj (userFields user ++ [(ascii "created_at", .str user.createdAt)]))], db)
          | (none, db) => (jsonError cfg .notFound (ascii "User not found"), db)
  else .ok (postgresDisabled cfg, db)

/-- The routes below `/api/`. -/
def handleApi (sessionId : Nat) (db : δ) (req : HttpRequest) (path : Bytes) : Except Exc (HttpResponse × δ) :=
  if path = ascii "/api/health" then
    .ok (HttpResponse.makeJsonResponse (ascii "\x7b\"status\":\"ok\",\"version\":\"2.0\"\x7d"), db)
  else if path = ascii "/api/info" then
    .ok (HttpResponse.makeJsonResponse
      (ascii "\x7b\"server\":\"Bre WebServer\",\"version\":\"2.0\",\"session\":\"" ++ decimalString sessionId ++ ascii "\"\x7d"), db)
  else if path = ascii "/api/login" ∧ req.method = .post then handleApiLogin cfg db req
  else if path = ascii "/api/register" ∧ req.method = .post then handleApiRegister cfg db req
  else if path = ascii "/api/users" ∧ req.method = .get then handleApiGetUsers cfg db
  else if path = ascii "/api/user" ∧ req.method = .get then handleApiGetUser cfg db req
  else .ok (HttpResponse.makeErrorResponse .notFound (ascii "API endpoint not found"), db)

/-! ## Static files -/

/-- The static branch. A path that `canonical` refuses is answered at once, before the
    keep-alive flag is set on the response. -/
def serveStatic (fs : Fs) (keepAlive : Bool) (path : Bytes) : Except Exc HttpResponse :=
  if path = [] then .error .outOfRange
  else
    let filePath := joinPath cfg.resourceDir (path.drop 1)
    match canonical fs cfg.resourceDir with
    | none => .error .filesystemError
    | some canonicalResourceDir =>
      match canonical fs filePath with
      | none => .ok (HttpResponse.makeErrorResponse .notFound [])
      | some canonicalFilePath =>
        let response :=
          if (mismatch (pathElements canonicalResourceDir) (pathElements canonicalFilePath)).1 ≠ [] then
            HttpResponse.makeErrorResponse .forbidden []
          else if fileExists fs canonicalFilePath ∧ isRegularFile fs canonicalFilePath then
            match HttpResponse.new.loadFile fs canonicalFilePath with
            | some response => response.setStatus .ok
            | none => HttpResponse.makeErrorResponse .internalServerError []
          else HttpResponse.makeErrorResponse .notFound []
        .ok (response.setKeepAlive keepAlive)

/-! ## Routing -/

def wantsKeepAlive (req : HttpRequest) : Bool :=
  let connection := req.getHeader (ascii "Connection")
  connection == ascii "keep-alive" || connection == ascii "Keep-Alive"

def apiPrefix : Bytes := ascii "/api/"

def routePath (req : HttpRequest) : Bytes := if req.path = ascii "/" then ascii "/index.html" else req.path

/-- The response that is built for a request, and the database after it. -/
def answer (sessionId : Nat) (env : Env δ) (req : HttpRequest) : Except Exc (HttpResponse × δ) :=
  let path := routePath req
  if apiPrefix <+: path then
    (handleApi cfg sessionId env.db req path).map fun r => (r.1.setKeepAlive (wantsKeepAlive req), r.2)
  else (serveStatic cfg env.fs (wantsKeepAlive req) path).map fun r => (r, env.db)

/-- The bytes that are written for a request: a function of the request, the session's id
    and the file system and database it is handled in. -/
def respond (sessionId : Nat) (env : Env δ) (req : HttpRequest) : Except Exc Bytes :=
  (answer cfg sessionId env req).map fun r => HttpResponse.encode cfg.order r.1

/-- The database that the handling of a request leaves; what throws leaves it as it was. -/
def databaseAfter (sessionId : Nat) (env : Env δ) (req : HttpRequest) : δ :=
  match answer cfg sessionId env req with
  | .ok (_, db) => db
  | .error _ => env.db

/-! ## The routes -/

def IsLogin (req : HttpRequest) : Prop := req.method = .post ∧ req.path = ascii "/api/login"

def IsRegister (req : HttpRequest) : Prop := req.method = .post ∧ req.path = ascii "/api/register"

def IsGetUsers (req : HttpRequest) : Prop := req.method = .get ∧ req.path = ascii "/api/users"

def IsGetUser (req : HttpRequest) : Prop := req.method = .get ∧ req.path = ascii "/api/user"

/-- What the handlers read of a form. -/
structure Form where
  username : Bytes
  password : Bytes
  email : Bytes

def formOf (req : HttpRequest) : Form :=
  ⟨extractParam req (ascii "username"), extractParam req (ascii "password"), extractParam req (ascii "email")⟩

/-- Name and password are there. -/
def Form.Complete (form : Form) : Prop := form.username ≠ [] ∧ form.password ≠ []

instance (form : Form) : Decidable form.Complete := inferInstanceAs (Decidable (_ ∧ _))

variable {cfg} {sessionId : Nat} {env : Env δ} {req : HttpRequest}

theorem complete_iff (req : HttpRequest) : (formOf req).Complete ↔
    ¬ (extractParam req (ascii "username") = [] ∨ extractParam req (ascii "password") = []) := not_or.symm

theorem routePath_api (h : apiPrefix <+: req.path) : routePath req = req.path := by
  unfold routePath
  rw [if_neg]
  intro he
  rw [he] at h
  exact absurd h (by decide)

/-- A path below `/api/` is routed as it is. -/
theorem answer_api (h : apiPrefix <+: req.path) :
    answer cfg sessionId env req =
      (handleApi cfg sessionId env.db req req.path).map fun r => (r.1.setKeepAlive (wantsKeepAlive req), r.2) := by
  simp only [answer, routePath_api h, if_pos h]

theorem answer_login (hl : IsLogin req) :
    answer cfg sessionId env req =
      (handleApiLogin cfg env.db req).map fun r => (r.1.setKeepAlive (wantsKeepAlive req), r.2) := by
  obtain ⟨hm, hp⟩ := hl
  have hne : ascii "/api/login" ≠ ascii "/api/health" ∧ ascii "/api/login" ≠ ascii "/api/info" := by decide
  rw [answer_api (by rw [hp]; decide), hp]
  simp only [handleApi, hne.1, hne.2, hm, and_self, if_true, if_false]

theorem answer_register (hr : IsRegister req) :
    answer cfg sessionId env req =
      (handleApiRegister cfg env.db req).map fun r => (r.1.setKeepAlive (wantsKeepAlive req), r.2) := by
  obtain ⟨hm, hp⟩ := hr
  have hne : ∀ path ∈ [ascii "/api/health", ascii "/api/info", ascii "/api/login"], ascii "/api/register" ≠ path := by
    decide
  simp only [List.forall_mem_cons] at hne
  obtain ⟨h1, h2, h3, -⟩ := hne
  rw [answer_api (by rw [hp]; decide), hp]
  simp only [handleApi, h1, h2, h3, hm, false_and, and_self, if_true, if_false]

theorem answer_getUsers (hg : IsGetUsers req) :
    answer cfg sessionId env req =
      (handleApiGetUsers cfg env.db).map fun r => (r.1.setKeepAlive (wantsKeepAlive req), r.2) := by
  obtain ⟨hm, hp⟩ := hg
  have hne : ∀ path ∈ [ascii "/api/health", ascii "/api/info", ascii "/api/login", ascii "/api/register"],
      ascii "/api/users" ≠ path := by decide
  simp only [List.forall_mem_cons] at hne
  obtain ⟨h1, h2, h3, h4, -⟩ := hne
  rw [answer_api (by rw [hp]; decide), hp]
  simp only [handleApi, h1, h2, h3, h4, hm, false_and, and_self, if_true, if_false]

theorem answer_getUser (hg : IsGetUser req) :
    answer cfg sessionId env req =
      (handleApiGetUser cfg env.db req).map fun r => (r.1.setKeepAlive (wantsKeepAlive req), r.2) := by
  obtain ⟨hm, hp⟩ := hg
  have hne : ∀ path ∈ [ascii "/api/health", ascii "/api/info", ascii "/api/login", ascii "/api/register",
      ascii "/api/users"], ascii "/api/user" ≠ path := by decide
  simp only [List.forall_mem_cons] at hne
  obtain ⟨h1, h2, h3, h4, h5, -⟩ := hne
  rw [answer_api (by rw [hp]; decide), hp]
  simp only [handleApi, h1, h2, h3, h4, h5, hm, false_and, and_self, if_true, if_false]

/-- Every other route below `/api/` answers without a call, in the database as it is. -/
theorem handleApi_other {db : δ} (hl : ¬ IsLogin req) (hr : ¬ IsRegister req) (hus : ¬ IsGetUsers req) (hu : ¬ IsGetUser req) :
    ∃ response : HttpResponse, handleApi cfg sessionId db req req.path = .ok (response, db) ∧
      ((∃ json, response = HttpResponse.makeJsonResponse json ∧ json ≠ []) ∨
        response = HttpResponse.makeErrorResponse .notFound (ascii "API endpoint not found")) := by
  rw [IsLogin, and_comm] at hl
  rw [IsRegister, and_comm] at hr
  rw [IsGetUsers, and_comm] at hus
  rw [IsGetUser, and_comm] at hu
  simp only [handleApi, hl, hr, hus, hu, if_false]
  split
  · exact ⟨_, rfl, .inl ⟨_, rfl, by simp [ascii]⟩⟩
  split
  · exact ⟨_, rfl, .inl ⟨_, rfl, by simp [ascii]⟩⟩
  · exact ⟨_, rfl, .inr rfl⟩

theorem called_ok {db : δ} (h : cfg.service.returns db = true) (x : HttpResponse × δ) : called cfg db x = .ok x := if_pos h

theorem called_lost {db : δ} (h : cfg.service.returns db = false) (x : HttpResponse × δ) :
    called cfg db x = .error .terminated := by
  rw [called, h]
  rfl

end BreWebServer.Server
