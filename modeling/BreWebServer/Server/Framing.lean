/-
  BreWebServer.Server.Framing — responses as a client frames them.

  `Build` never sees the request's method, so a response to a HEAD request carries its
  body. A client that frames by `Content-Length` and expects no body after a HEAD request
  recovers the responses of a connection exactly when no handler threw or ended the
  process and every HEAD request named an empty file (`client_recovers_iff_framed`); any
  other HEAD request shifts the framing of what follows (`head_body_shifts`).
-/

import BreWebServer.Http.Client
import BreWebServer.Server.Exchange

namespace BreWebServer.Server

open BreWebServer.Lib BreWebServer.Cpp BreWebServer.Http BreWebServer.Service

variable {δ : Type} (cfg : Config δ)

/-! ## When a request is answered -/

/-- `GET /api/user` with an id that `stoi` does not take. -/
def MisreadsId (req : HttpRequest) : Prop :=
  cfg.postgres = true ∧ req.path = ascii "/api/user" ∧ req.method = .get ∧ extractParam req (ascii "id") ≠ [] ∧
    ∃ e, stoi (extractParam req (ascii "id")) = .error e

/-- The handler makes its call of `UserService`. -/
def MakesCall (req : HttpRequest) : Prop :=
  cfg.postgres = true ∧
    (IsLogin req ∧ (formOf req).Complete ∨ IsRegister req ∧ (formOf req).Complete ∨ IsGetUsers req ∨
      IsGetUser req ∧ ∃ id, stoi (extractParam req (ascii "id")) = .ok id)

/-- An exception leaves the handling of the request, or its call ends the process. -/
def Throws (env : Env δ) (req : HttpRequest) : Prop :=
  if apiPrefix <+: req.path then MisreadsId cfg req ∨ MakesCall cfg req ∧ cfg.service.returns env.db = false
  else req.path = [] ∨ canonical env.fs cfg.resourceDir = none

/-- The request names an openable empty file below the resource directory. -/
def NamesEmptyFile (env : Env δ) (req : HttpRequest) : Prop :=
  ¬ apiPrefix <+: req.path ∧ ∃ root q, canonical env.fs cfg.resourceDir = some root ∧
    canonical env.fs (joinPath cfg.resourceDir ((routePath req).drop 1)) = some q ∧ root <+: q ∧
    env.fs.tree.node q = some (.leaf (.regular [] true))

theorem called_ok_iff {db : δ} {x : HttpResponse × δ} : (∃ r, called cfg db x = .ok r) ↔ cfg.service.returns db = true := by
  cases h : cfg.service.returns db with
  | true => exact iff_of_true ⟨x, called_ok h x⟩ rfl
  | false =>
    refine iff_of_false ?_ (by simp)
    intro ⟨r, hr⟩
    rw [called_lost h] at hr
    cases hr

/-- The two handlers that look for a name and a password before they call the service. -/
theorem credentials_ok_iff {db : δ} {req : HttpRequest} {missing disabled x : HttpResponse × δ} :
    (∃ r, (if cfg.postgres then
        if extractParam req (ascii "username") = [] ∨ extractParam req (ascii "password") = [] then .ok missing
        else called cfg db x
      else (.ok disabled : Except Exc (HttpResponse × δ))) = .ok r) ↔
      ¬ (cfg.postgres = true ∧ (formOf req).Complete ∧ cfg.service.returns db = false) := by
  rw [complete_iff]
  by_cases hp : cfg.postgres = true
  · by_cases hne : extractParam req (ascii "username") = [] ∨ extractParam req (ascii "password") = []
    · rw [if_pos hp, if_pos hne]
      exact iff_of_true ⟨_, rfl⟩ (fun h => h.2.1 hne)
    · rw [if_pos hp, if_neg hne, called_ok_iff]
      simp only [hp, hne, not_false_eq_true, true_and, Bool.not_eq_false]
  · rw [if_neg hp]
    exact iff_of_true ⟨_, rfl⟩ (fun h => hp h.1)

theorem getUsers_ok_iff (db : δ) : (∃ r, handleApiGetUsers cfg db = .ok r) ↔
    ¬ (cfg.postgres = true ∧ cfg.service.returns db = false) := by
  unfold handleApiGetUsers
  by_cases hp : cfg.postgres = true
  · rw [if_pos hp, called_ok_iff]
    simp only [hp, true_and, Bool.not_eq_false]
  · rw [if_neg hp]
    exact iff_of_true ⟨_, rfl⟩ (fun h => hp h.1)

theorem getUser_ok_iff (db : δ) (req : HttpRequest) :
    (∃ r, handleApiGetUser cfg db req = .ok r) ↔
      ¬ (cfg.postgres = true ∧ extractParam req (ascii "id") ≠ [] ∧
        ((∃ e, stoi (extractParam req (ascii "id")) = .error e) ∨ cfg.service.returns db = false)) := by
  unfold handleApiGetUser
  by_cases hp : cfg.postgres = true
  · by_cases hid : extractParam req (ascii "id") = []
    · simp [hp, hid]
    · cases hs : stoi (extractParam req (ascii "id")) with
      | error e => simp [hp, hid, hs]
      | ok id =>
        simp only [hp, hid, hs, if_true, if_false, called_ok_iff, reduceCtorEq, exists_false, false_or, ne_eq,
          not_false_eq_true, true_and, Bool.not_eq_false]
  · simp [hp]

theorem map_ok_iff {α β : Type} (x : Except Exc α) (f : α → β) : (∃ r, x.map f = .ok r) ↔ ∃ r, x = .ok r := by
  cases x <;> simp [Except.map]

theorem api_ok_iff (sessionId : Nat) (env : Env δ) {req : HttpRequest} (hapi : apiPrefix <+: req.path) :
    (∃ r, answer cfg sessionId env req = .ok r) ↔
      ¬ (MisreadsId cfg req ∨ MakesCall cfg req ∧ cfg.service.returns env.db = false) := by
  have hapart : [ascii "/api/login", ascii "/api/register", ascii "/api/users", ascii "/api/user"].Nodup := by decide
  simp only [List.nodup_cons, List.mem_cons, List.not_mem_nil, or_false, not_or, List.nodup_nil, and_true,
    not_false_eq_true] at hapart
  obtain ⟨⟨hlr, hlus, hlu⟩, ⟨hrus, hru⟩, husu⟩ := hapart
  unfold MisreadsId MakesCall
  by_cases hl : IsLogin req
  · rw [answer_login hl, map_ok_iff]
    refine credentials_ok_iff cfg |>.trans ?_
    simp [IsLogin, IsRegister, IsGetUsers, IsGetUser, hl.1, hl.2, hlr, hlus, hlu]
  by_cases hr : IsRegister req
  · rw [answer_register hr, map_ok_iff]
    refine credentials_ok_iff cfg |>.trans ?_
    simp [IsLogin, IsRegister, IsGetUsers, IsGetUser, hr.1, hr.2, Ne.symm hlr, hrus, hru]
  by_cases hus : IsGetUsers req
  · rw [answer_getUsers hus, map_ok_iff, getUsers_ok_iff]
    simp [IsLogin, IsRegister, IsGetUsers, IsGetUser, hus.1, hus.2, husu]
  by_cases hu : IsGetUser req
  · rw [answer_getUser hu, map_ok_iff, getUser_ok_iff]
    have hnumbered : ∀ id, stoi (extractParam req (ascii "id")) = .ok id → extractParam req (ascii "id") ≠ [] := by
      intro id hok hid
      rw [hid] at hok
      cases hok
    simp only [IsLogin, IsRegister, IsGetUsers, IsGetUser, hu.1, hu.2, Ne.symm husu, reduceCtorEq, false_and, and_false,
      false_or, true_and, and_self]
    cases hs : stoi (extractParam req (ascii "id")) with
    | error e => simp
    | ok id => simp [hnumbered id hs]
  · obtain ⟨response, he, -⟩ := @handleApi_other _ cfg sessionId req env.db hl hr hus hu
    rw [answer_api hapi, map_ok_iff, he]
    refine iff_of_true ⟨_, rfl⟩ ?_
    rintro (⟨-, hp, hm, -⟩ | ⟨⟨-, hcall⟩, -⟩)
    · exact hu ⟨hm, hp⟩
    · rcases hcall with h | h | h | h
      · exact hl h.1
      · exact hr h.1
      · exact hus h
      · exact hu h.1

theorem static_ok_iff (sessionId : Nat) (env : Env δ) {req : HttpRequest} (hapi : ¬ apiPrefix <+: req.path) :
    (∃ r, answer cfg sessionId env req = .ok r) ↔ ¬ (req.path = [] ∨ canonical env.fs cfg.resourceDir = none) := by
  have hapi' : ¬ apiPrefix <+: routePath req := fun h => hapi ((api_routePath req).mp h)
  simp only [answer, hapi', if_false, map_ok_iff, not_or]
  by_cases hp : req.path = []
  · have hp' := routePath_ne_nil.mpr hp
    simp [serveStatic, hp, hp']
  · have hp' : routePath req ≠ [] := fun h => hp (routePath_ne_nil.mp h)
    cases hr : canonical env.fs cfg.resourceDir with
    | none => simp [serveStatic, hp', hr]
    | some root =>
      rw [serveStatic_eq cfg hr _ hp']
      exact iff_of_true ⟨_, rfl⟩ ⟨hp, by simp⟩

theorem answer_ok_iff (sessionId : Nat) (env : Env δ) (req : HttpRequest) :
    (∃ r, answer cfg sessionId env req = .ok r) ↔ ¬ Throws cfg env req := by
  unfold Throws
  split
  · rename_i hapi
    exact api_ok_iff cfg sessionId env hapi
  · rename_i hapi
    exact static_ok_iff cfg sessionId env hapi

/-! ## What its response looks like -/

def contentTypes : List Bytes :=
  mimeTypes.map (·.2) ++ [ascii "application/octet-stream", ascii "application/json; charset=utf-8"]

/-- A response whose one header before `Build` is a content type of the program's. -/
def Typed (r : HttpResponse) : Prop := ∃ t ∈ contentTypes, r.headers = (∅ : Headers).insert (ascii "Content-Type") t

theorem typed_error (status : HttpStatus) (message : Bytes) : Typed (HttpResponse.makeErrorResponse status message) :=
  ⟨ascii "text/html; charset=utf-8", by decide, rfl⟩

theorem json_mem_contentTypes : ascii "application/json; charset=utf-8" ∈ contentTypes := by simp [contentTypes]

theorem typed_json (json : Bytes) : Typed (HttpResponse.makeJsonResponse json) :=
  ⟨_, json_mem_contentTypes, rfl⟩

theorem typed_jsonError (status : HttpStatus) (error : Bytes) : Typed (jsonError cfg status error) :=
  ⟨_, json_mem_contentTypes, rfl⟩

theorem typed_jsonReply (fields : List (Bytes × Json)) : Typed (jsonReply cfg fields) :=
  ⟨_, json_mem_contentTypes, rfl⟩

theorem typed_fileResponse (fs : Fs) (q : List Bytes) : Typed (fileResponse fs q) := by
  unfold fileResponse
  split
  · refine ⟨getContentType (extension (q.getLast?.getD [])), ?_, rfl⟩
    unfold getContentType contentTypes
    cases h : mimeTypes.lookup (extension (q.getLast?.getD [])) with
    | none => simp
    | some t =>
      obtain ⟨a, b, he, -⟩ := List.lookup_eq_some_iff.mp h
      simp [he]
  · exact typed_error _ _
  · exact typed_error _ _

theorem typed_called {db : δ} {x r : HttpResponse × δ} (hx : Typed x.1) (h : called cfg db x = .ok r) : Typed r.1 := by
  unfold called at h
  split at h
  · cases h
    exact hx
  · cases h

theorem typed_handleApiLogin {db : δ} {req : HttpRequest} {r : HttpResponse × δ} (h : handleApiLogin cfg db req = .ok r) :
    Typed r.1 := by
  simp only [handleApiLogin] at h
  split at h
  · split at h
    · cases h
      exact typed_jsonError cfg _ _
    · refine typed_called cfg ?_ h
      split
      · exact typed_jsonReply cfg _
      · exact typed_jsonError cfg _ _
  · cases h
    exact typed_jsonError cfg _ _

theorem typed_handleApiRegister {db : δ} {req : HttpRequest} {r : HttpResponse × δ}
    (h : handleApiRegister cfg db req = .ok r) : Typed r.1 := by
  simp only [handleApiRegister] at h
  split at h
  · split at h
    · cases h
      exact typed_jsonError cfg _ _
    · refine typed_called cfg ?_ h
      split
      · exact typed_jsonReply cfg _
      · exact typed_jsonError cfg _ _
  · cases h
    exact typed_jsonError cfg _ _

theorem typed_handleApiGetUsers {db : δ} {r : HttpResponse × δ} (h : handleApiGetUsers cfg db = .ok r) : Typed r.1 := by
  unfold handleApiGetUsers at h
  split at h
  · exact typed_called cfg (typed_jsonReply cfg _) h
  · cases h
    exact typed_jsonError cfg _ _

theorem typed_handleApiGetUser {db : δ} {req : HttpRequest} {r : HttpResponse × δ}
    (h : handleApiGetUser cfg db req = .ok r) : Typed r.1 := by
  simp only [handleApiGetUser] at h
  split at h
  · split at h
    · cases h
      exact typed_jsonError cfg _ _
    · split at h
      · cases h
      · refine typed_called cfg ?_ h
        split
        · exact typed_jsonReply cfg _
        · exact typed_jsonError cfg _ _
  · cases h
    exact typed_jsonError cfg _ _

theorem typed_handleApi {sessionId : Nat} {db : δ} {req : HttpRequest} {path : Bytes} {r : HttpResponse × δ}
    (h : handleApi cfg sessionId db req path = .ok r) : Typed r.1 := by
  unfold handleApi at h
  split at h
  · cases h
    exact typed_json _
  split at h
  · cases h
    exact typed_json _
  split at h
  · exact typed_handleApiLogin cfg h
  split at h
  · exact typed_handleApiRegister cfg h
  split at h
  · exact typed_handleApiGetUsers cfg h
  split at h
  · exact typed_handleApiGetUser cfg h
  · cases h
    exact typed_error _ _

theorem typed_answer {sessionId : Nat} {env : Env δ} {req : HttpRequest} {r : HttpResponse} {db : δ}
    (h : answer cfg sessionId env req = .ok (r, db)) : Typed r := by
  unfold answer at h
  simp only at h
  split at h
  · cases ha : handleApi cfg sessionId env.db req (routePath req) with
    | error e => simp [ha, Except.map] at h
    | ok p =>
      rw [ha] at h
      cases h
      exact typed_handleApi cfg ha
  · cases ha : serveStatic cfg env.fs (wantsKeepAlive req) (routePath req) with
    | error e => simp [ha, Except.map] at h
    | ok p =>
      rw [ha] at h
      cases h
      by_cases hp : routePath req = []
      · simp [serveStatic, hp] at ha
      · cases hr : canonical env.fs cfg.resourceDir with
        | none => simp [serveStatic, hp, hr] at ha
        | some root =>
          rw [serveStatic_eq cfg hr _ hp] at ha
          cases ha
          split
          · exact typed_error .notFound []
          · split
            · exact typed_fileResponse _ _
            · exact typed_error .forbidden []

/-- The headers of the program's responses, but for `Content-Length`. -/
def fixedFields : List (Bytes × Bytes) :=
  [(ascii "Connection", ascii "close"), (ascii "Connection", ascii "keep-alive"),
    (ascii "Keep-Alive", ascii "timeout=5, max=100")] ++ contentTypes.map fun t => (ascii "Content-Type", t)

theorem fixedFields_clean : ∀ kv ∈ fixedFields, 13 ∉ HttpResponse.headerLine kv ∧ colon ∉ kv.1 ∧
    Client.lower kv.1 ≠ Client.lower contentLengthKey := by
  decide

theorem mem_order (it : HttpResponse.MapOrder) {r : HttpResponse} (h : Typed r) :
    (contentLengthKey, decimalString r.body.length) ∈ it.order r.finished.headers ∧
    ∀ kv ∈ it.order r.finished.headers, kv = (contentLengthKey, decimalString r.body.length) ∨ kv ∈ fixedFields := by
  obtain ⟨t, ht, hh⟩ := h
  have hct : (ascii "Content-Type", t) ∈ fixedFields :=
    List.mem_append.mpr (.inr (List.mem_map.mpr ⟨t, ht, rfl⟩))
  obtain ⟨status, headers, body, keepAlive⟩ := r
  obtain rfl : headers = (∅ : Headers).insert (ascii "Content-Type") t := hh
  have hmem := fun kv => (it.perm (HttpResponse.mk status
    ((∅ : Headers).insert (ascii "Content-Type") t) body keepAlive).finished.headers).mem_iff (a := kv)
  cases keepAlive with
  | true =>
    have he : ((HttpResponse.mk status ((∅ : Headers).insert (ascii "Content-Type") t) body true).finished.headers.entries.map
        fun e => (e.1, e.2)) =
        [(contentLengthKey, decimalString body.length), (ascii "Keep-Alive", ascii "timeout=5, max=100"),
          (ascii "Connection", ascii "keep-alive"), (ascii "Content-Type", t)] := rfl
    rw [he] at hmem
    refine ⟨(hmem _).mpr (by simp), ?_⟩
    intro kv hkv
    rcases (by simpa using (hmem kv).mp hkv) with rfl | rfl | rfl | rfl
    · exact .inl rfl
    · exact .inr (by decide)
    · exact .inr (by decide)
    · exact .inr hct
  | false =>
    have he : ((HttpResponse.mk status ((∅ : Headers).insert (ascii "Content-Type") t) body false).finished.headers.entries.map
        fun e => (e.1, e.2)) =
        [(contentLengthKey, decimalString body.length), (ascii "Connection", ascii "close"),
          (ascii "Content-Type", t)] := rfl
    rw [he] at hmem
    refine ⟨(hmem _).mpr (by simp), ?_⟩
    intro kv hkv
    rcases (by simpa using (hmem kv).mp hkv) with rfl | rfl | rfl
    · exact .inl rfl
    · exact .inr (by decide)
    · exact .inr hct

theorem lengthLine_clear (n : Nat) : 13 ∉ HttpResponse.headerLine (contentLengthKey, decimalString n) := by
  show 13 ∉ contentLengthKey ++ ascii ": " ++ decimalString n
  rw [List.mem_append, not_or]
  refine ⟨by decide, ?_⟩
  intro h
  exact absurd (Client.isDigit_of_mem_decimalString h) (by decide)

theorem headLines_clean {it : HttpResponse.MapOrder} {r : HttpResponse} (h : Typed r) :
    ∀ l ∈ HttpResponse.headLines it r, l ≠ [] ∧ ¬ crlf <:+: l := by
  apply HttpResponse.headLines_clear
  intro kv hkv
  rcases (mem_order it h).2 kv hkv with rfl | hf
  · exact lengthLine_clear _
  · exact (fixedFields_clean kv hf).1

/-- The announced length is that of the body. -/
theorem bodyLength_headLines {it : HttpResponse.MapOrder} {r : HttpResponse} (h : Typed r) :
    Client.bodyLength (HttpResponse.headLines it r) = some r.body.length := by
  obtain ⟨hlen, hrest⟩ := mem_order it h
  have hdigits : Client.trim (sp :: decimalString r.body.length) = decimalString r.body.length :=
    Client.trim_value fun c hc => Client.isBlank_of_isDigit (Client.isDigit_of_mem_decimalString hc)
  have hline : Client.fieldValue contentLengthKey (HttpResponse.headerLine (contentLengthKey, decimalString r.body.length)) =
      some (decimalString r.body.length) := by
    rw [HttpResponse.headerLine, Client.fieldValue_line contentLengthKey (show colon ∉ contentLengthKey by decide),
      if_pos rfl, hdigits]
  have hfind : ((it.order r.finished.headers).map HttpResponse.headerLine).findSome? (Client.fieldValue contentLengthKey) =
      some (decimalString r.body.length) := by
    apply Client.findSome?_of_mem (List.mem_map_of_mem hlen) hline
    intro l hl
    obtain ⟨kv, hkv, rfl⟩ := List.mem_map.mp hl
    rcases hrest kv hkv with rfl | hf
    · exact .inr hline
    · obtain ⟨-, hcolon, hname⟩ := fixedFields_clean kv hf
      left
      rw [HttpResponse.headerLine, Client.fieldValue_line contentLengthKey hcolon, if_neg hname]
  unfold Client.bodyLength HttpResponse.headLines
  rw [List.tail_cons, hfind, Option.bind_some, Client.readNumber_decimalString]

/-! ## The body of a response to a HEAD request -/

theorem errorBody_ne_nil (status : HttpStatus) (message : Bytes) : (HttpResponse.makeErrorResponse status message).body ≠ [] := by
  simp [HttpResponse.makeErrorResponse, HttpResponse.setBody, ascii]

theorem handleApi_head {sessionId : Nat} {db : δ} {req : HttpRequest} {path : Bytes} {r : HttpResponse × δ}
    (hm : req.method = .head) (h : handleApi cfg sessionId db req path = .ok r) : r.1.body ≠ [] := by
  simp only [handleApi, hm, reduceCtorEq, and_false, if_false] at h
  split at h
  · cases h
    simp [HttpResponse.makeJsonResponse, HttpResponse.setBody, ascii]
  split at h
  · cases h
    simp [HttpResponse.makeJsonResponse, HttpResponse.setBody, ascii]
  · cases h
    exact errorBody_ne_nil _ _

theorem fileResponse_body (fs : Fs) (q : List Bytes) :
    (fileResponse fs q).body = [] ↔ fs.tree.node q = some (.leaf (.regular [] true)) := by
  unfold fileResponse
  split
  · rename_i content hn
    rw [hn]
    simp [HttpResponse.setStatus, HttpResponse.setContentType, HttpResponse.addHeader, HttpResponse.setBody]
  · rename_i content hn
    rw [hn]
    simpa using errorBody_ne_nil _ _
  · rename_i hne _
    exact iff_of_false (errorBody_ne_nil _ _) (hne [])

/-- The static branch answers with no body just for an empty file. -/
theorem static_body_iff {env : Env δ} {req : HttpRequest} {r : HttpResponse} (hapi : ¬ apiPrefix <+: req.path)
    (ha : serveStatic cfg env.fs (wantsKeepAlive req) (routePath req) = .ok r) :
    r.body = [] ↔ NamesEmptyFile cfg env req := by
  by_cases hp : routePath req = []
  · simp [serveStatic, hp] at ha
  cases hr : canonical env.fs cfg.resourceDir with
  | none => simp [serveStatic, hp, hr] at ha
  | some root =>
    rw [serveStatic_eq cfg hr _ hp] at ha
    cases ha
    unfold NamesEmptyFile
    rw [hr]
    cases hc : canonical env.fs (joinPath cfg.resourceDir ((routePath req).drop 1)) with
    | none => exact iff_of_false (errorBody_ne_nil _ _) (by simp)
    | some q =>
      by_cases hq : root <+: q
      · simp only [hq, if_true, Option.some.injEq]
        apply Iff.trans (fileResponse_body env.fs q)
        constructor
        · intro hn
          exact ⟨hapi, root, q, rfl, rfl, hq, hn⟩
        · intro hn
          obtain ⟨-, _, _, rfl, rfl, -, hn⟩ := hn
          exact hn
      · simp only [hq, if_false, Option.some.injEq]
        apply iff_of_false (errorBody_ne_nil _ _)
        intro hn
        obtain ⟨-, _, _, rfl, rfl, hin, -⟩ := hn
        exact hq hin

theorem head_body_iff {sessionId : Nat} {env : Env δ} {req : HttpRequest} {r : HttpResponse} {db : δ}
    (hm : req.method = .head) (h : answer cfg sessionId env req = .ok (r, db)) :
    r.body = [] ↔ NamesEmptyFile cfg env req := by
  unfold answer at h
  simp only [api_routePath] at h
  by_cases hapi : apiPrefix <+: req.path
  · simp only [hapi, if_true] at h
    refine iff_of_false ?_ (fun hn => hn.1 hapi)
    cases ha : handleApi cfg sessionId env.db req (routePath req) with
    | error e => simp [ha, Except.map] at h
    | ok p =>
      rw [ha] at h
      cases h
      exact handleApi_head cfg hm ha
  · simp only [hapi, if_false] at h
    cases ha : serveStatic cfg env.fs (wantsKeepAlive req) (routePath req) with
    | error e => simp [ha, Except.map] at h
    | ok p =>
      rw [ha] at h
      cases h
      exact static_body_iff cfg hapi ha

/-! ## Whole connections -/

def toHead (q : HttpRequest × Env δ) : Bool := q.1.method == .head

/-- A client holds the response a handled request was built, without a body for HEAD. -/
def Recovered (sessionId : Nat) (q : HttpRequest × Env δ) (c : Client.Response) : Prop :=
  ∃ r db, answer cfg sessionId q.2 q.1 = .ok (r, db) ∧ c.head = HttpResponse.headLines cfg.order r ∧
    c.body = if toHead q then [] else r.body

/-- The request is answered, and without a body if it is a HEAD request. -/
def Framed (q : HttpRequest × Env δ) : Prop := ¬ Throws cfg q.2 q.1 ∧ (q.1.method = .head → NamesEmptyFile cfg q.2 q.1)

variable {cfg} {sessionId : Nat}

theorem reply_of_answer {q : HttpRequest × Env δ} {r : HttpResponse} {db : δ}
    (h : answer cfg sessionId q.2 q.1 = .ok (r, db)) :
    Session.reply cfg sessionId q = some (r.encode cfg.order) := by
  simp [Session.reply, respond, h, Except.map, Except.toOption]

/-- What a client recovers is no longer than what was written, and as long only if the
    responses to HEAD requests had no body. -/
theorem recovered_length {l : List (HttpRequest × Env δ)} {cs : List Client.Response}
    (h : List.Forall₂ (Recovered cfg sessionId) l cs) :
    (cs.flatMap Client.Response.bytes).length ≤ (l.filterMap (Session.reply cfg sessionId)).flatten.length ∧
    ((cs.flatMap Client.Response.bytes).length = (l.filterMap (Session.reply cfg sessionId)).flatten.length →
      ∀ q ∈ l, Framed cfg q) := by
  induction h with
  | nil => exact ⟨Nat.le_refl _, fun _ q hq => by cases hq⟩
  | @cons q c l cs hr hrs ih =>
    obtain ⟨hle, hall⟩ := ih
    obtain ⟨r, db, ha, hhead, hbody⟩ := hr
    have hw := reply_of_answer ha
    have hlen : c.bytes.length ≤ (r.encode cfg.order).length ∧
        (c.bytes.length = (r.encode cfg.order).length → toHead q = true → r.body = []) := by
      rw [HttpResponse.encode_eq, Client.Response.bytes, hhead, hbody]
      cases toHead q with
      | true =>
        simp only [if_true, List.length_append, List.length_nil]
        exact ⟨by omega, fun he _ => List.length_eq_zero_iff.mp (by omega)⟩
      | false => simp
    simp only [List.flatMap_cons, List.filterMap_cons, hw, List.flatten_cons, List.length_append]
    refine ⟨by omega, ?_⟩
    intro he p hp
    rcases List.mem_cons.mp hp with rfl | hp
    · refine ⟨(answer_ok_iff cfg sessionId p.2 p.1).mp ⟨_, ha⟩, fun hm => (head_body_iff cfg hm ha).mp ?_⟩
      exact hlen.2 (by omega) (by simp [toHead, hm])
    · exact hall (by omega) p hp

/-- A client reads the responses to framed requests whole. -/
theorem recovers_framed {l : List (HttpRequest × Env δ)} (h : ∀ q ∈ l, Framed cfg q) :
    ∃ cs, Client.readResponses (l.map toHead) (l.filterMap (Session.reply cfg sessionId)).flatten = some (cs, []) ∧
      List.Forall₂ (Recovered cfg sessionId) l cs := by
  induction l with
  | nil => exact ⟨[], rfl, .nil⟩
  | cons q l ih =>
    obtain ⟨cs, hread, hrec⟩ := ih fun p hp => h p (by simp [hp])
    obtain ⟨hno, hhead⟩ := h q (by simp)
    obtain ⟨⟨r, db⟩, ha⟩ := (answer_ok_iff cfg sessionId q.2 q.1).mpr hno
    have htyped := typed_answer cfg ha
    have hempty : toHead q = true → r.body = [] := by
      intro hm
      have hm' : q.1.method = .head := by simpa [toHead] using hm
      exact (head_body_iff cfg hm' ha).mpr (hhead hm')
    refine ⟨⟨HttpResponse.headLines cfg.order r, r.body⟩ :: cs, ?_, .cons ⟨r, db, ha, rfl, ?_⟩ hrec⟩
    · have hone := Client.readResponse_of_announced (r := ⟨HttpResponse.headLines cfg.order r, r.body⟩)
        (headLines_clean htyped) (fun _ => bodyLength_headLines htyped) hempty (l.filterMap (Session.reply cfg sessionId)).flatten
      have hbytes : (r.encode cfg.order) = Client.Response.bytes ⟨HttpResponse.headLines cfg.order r, r.body⟩ :=
        HttpResponse.encode_eq cfg.order r
      simp only [List.map_cons, List.filterMap_cons, reply_of_answer ha, List.flatten_cons, hbytes,
        Client.readResponses, hone, Option.bind_some, hread, Option.map_some]
    · cases ht : toHead q with
      | true => simp [hempty ht]
      | false => simp

theorem client_recovers_iff_framed {es : List (Session.Event δ)} {s : Session δ}
    (h : Session.after cfg sessionId es = some s) :
    (∃ cs, Client.readResponses (s.handled.map toHead) s.written.flatten = some (cs, []) ∧
      List.Forall₂ (Recovered cfg sessionId) s.handled cs) ↔
      ∀ q ∈ s.handled, ¬ Throws cfg q.2 q.1 ∧ (q.1.method = .head → NamesEmptyFile cfg q.2 q.1) := by
  obtain ⟨cur, hs⟩ := Session.synced_after h
  rw [hs.replies]
  constructor
  · intro hex
    obtain ⟨cs, hread, hrec⟩ := hex
    have hsound := Client.readResponses_sound _ hread
    rw [List.append_nil] at hsound
    exact (recovered_length hrec).2 (by rw [hsound])
  · exact recovers_framed

theorem get_recovered : ∃ s, Session.after siteConfig 1 (Session.exchange Session.keepAliveRequest) = some s ∧
    ∃ cs, Client.readResponses (s.handled.map toHead) s.written.flatten = some (cs, []) ∧
      List.Forall₂ (Recovered siteConfig 1) s.handled cs := by
  have hv : (Session.after siteConfig 1 (Session.exchange Session.keepAliveRequest)).map (·.handled) =
      some [((parse .fresh Session.keepAliveRequest).2.1, ⟨site, ()⟩)] := rfl
  obtain ⟨s, hs, hh⟩ := Option.map_eq_some_iff.mp hv
  refine ⟨s, hs, (client_recovers_iff_framed hs).mpr ?_⟩
  intro q hq
  rw [hh, List.mem_singleton] at hq
  subst hq
  constructor
  · unfold Throws
    rw [if_neg (by decide)]
    decide
  · intro hm
    exact absurd hm (by decide)

def headRequest : Bytes := ascii "HEAD / H\r\nConnection: keep-alive\r\n\r\n"

/-- Behind the lines of the response to a HEAD request the body is left, where the next
    response should begin. -/
theorem head_leaves_body (it : HttpResponse.MapOrder) {r : HttpResponse} (h : Typed r) (rest : Bytes) :
    Client.readResponse true (r.encode it ++ rest) = some (⟨HttpResponse.headLines it r, []⟩, r.body ++ rest) := by
  have hbytes : r.encode it ++ rest =
      Client.Response.bytes ⟨HttpResponse.headLines it r, []⟩ ++ (r.body ++ rest) := by
    rw [HttpResponse.encode_eq]
    simp [Client.Response.bytes]
  rw [hbytes]
  exact Client.readResponse_of_announced (headLines_clean h) (fun h => by cases h) (fun _ => rfl) (r.body ++ rest)

theorem head_body_shifts : ∃ s, Session.after siteConfig 1 (Session.exchange headRequest) = some s ∧
    s.handled.map toHead = [true] ∧ ∀ cs, Client.readResponses (s.handled.map toHead) s.written.flatten ≠ some (cs, []) := by
  have hv : (Session.after siteConfig 1 (Session.exchange headRequest)).map (·.handled) =
      some [((parse .fresh headRequest).2.1, ⟨site, ()⟩)] := rfl
  have hb : (answer siteConfig 1 ⟨site, ()⟩ (parse .fresh headRequest).2.1).map (·.1.body) = .ok (ascii "hi") := by decide
  obtain ⟨s, hs, hh⟩ := Option.map_eq_some_iff.mp hv
  obtain ⟨cur, hsync⟩ := Session.synced_after hs
  cases ha : answer siteConfig 1 ⟨site, ()⟩ (parse .fresh headRequest).2.1 with
  | error e =>
    rw [ha] at hb
    cases hb
  | ok p =>
    obtain ⟨r, db⟩ := p
    rw [ha] at hb
    have hbody : r.body = ascii "hi" := by simpa [Except.map] using hb
    have hw : s.written.flatten = r.encode siteConfig.order ++ [] := by
      rw [hsync.replies, hh, List.filterMap_cons, reply_of_answer ha]
      rfl
    have hread := head_leaves_body siteConfig.order (typed_answer siteConfig ha) []
    have hm : s.handled.map toHead = [true] := by
      rw [hh]
      rfl
    refine ⟨s, hs, hm, ?_⟩
    intro cs he
    rw [hm, hw, Client.readResponses, hread, Option.bind_some, hbody] at he
    simp [Client.readResponses, ascii] at he

end BreWebServer.Server
