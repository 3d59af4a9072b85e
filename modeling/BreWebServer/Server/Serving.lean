/-
  BreWebServer.Server.Serving — requests served one after the other over one table.

  `tableAfter` is the table `users` that a list of requests leaves, each handled in the table
  that the ones before it left (`serve`). Proved of every list of requests, from the table
  as `schema.sql` creates it:

  (1) Only a registration that is answered 200 changes the table, and it adds one row behind
  the others, of a greater id and without a NULL (`serve_users`, `Grown`). So no account is
  changed or lost, and the listing of users only grows at its end (`listing_grows`).

  (2) `login_ok_iff_registered`: where the digests are computed, `POST /api/login` is
  answered 200 exactly when a `POST /api/register` for the same name, with a password of the
  same SHA-256, was answered 200 before.
-/

import BreWebServer.Server.Listing

namespace BreWebServer.Server

open BreWebServer.Lib BreWebServer.Cpp BreWebServer.Database BreWebServer.Http BreWebServer.Service
open BreWebServer.Service.UserTable

/-! ## One request -/

section

variable {δ : Type} (cfg : Config δ) (pg : Postgres) (sha256 : Bytes → List UInt8)

/-- The status that a request is answered with, unless its handler throws. -/
def statusOf (users : Users) (visit : Visit) : Option HttpStatus :=
  match answer (cfg.withUsers pg sha256) visit.sessionId ⟨visit.fs, ⟨users, visit.call⟩⟩ visit.req with
  | .ok (response, _) => some response.status
  | .error _ => none

/-- The registration that the handler of `POST /api/register` asks the service for. -/
def registerOf (users : Users) (visit : Visit) : Bool × Users :=
  register pg sha256 visit.call users (formOf visit.req).username (formOf visit.req).password (formOf visit.req).email

def tableAfter (users : Users) (visits : List Visit) : Users := (Machine.outputs (serve cfg pg sha256) users visits).2

end

variable {δ : Type} {cfg : Config δ} {pg : Postgres} {sha256 : Bytes → List UInt8} {users : Users} {visit : Visit}

/-- What a registration is answered, and the table that it leaves. -/
theorem answer_registerReply (hr : IsRegister visit.req) :
    answer (cfg.withUsers pg sha256) visit.sessionId ⟨visit.fs, ⟨users, visit.call⟩⟩ visit.req =
      if cfg.postgres = true ∧ (formOf visit.req).Complete then
        if visit.call.returns then
          .ok ((registerReply (cfg.withUsers pg sha256) visit.req (registerOf pg sha256 users visit).1).setKeepAlive
            (wantsKeepAlive visit.req), ⟨(registerOf pg sha256 users visit).2, visit.call⟩)
        else .error .terminated
      else
        .ok ((registerReply (cfg.withUsers pg sha256) visit.req (registerOf pg sha256 users visit).1).setKeepAlive
          (wantsKeepAlive visit.req), ⟨users, visit.call⟩) := by
  have he : handleApiRegister (cfg.withUsers pg sha256) ⟨users, visit.call⟩ visit.req =
      if cfg.postgres = true ∧ (formOf visit.req).Complete then
        if visit.call.returns then
          .ok (registerReply (cfg.withUsers pg sha256) visit.req (registerOf pg sha256 users visit).1,
            ⟨(registerOf pg sha256 users visit).2, visit.call⟩)
        else .error .terminated
      else .ok (registerReply (cfg.withUsers pg sha256) visit.req (registerOf pg sha256 users visit).1,
        ⟨users, visit.call⟩) := handleApiRegister_eq rfl
  rw [answer_register hr, he]
  by_cases hc : cfg.postgres = true ∧ (formOf visit.req).Complete
  · rw [if_pos hc, if_pos hc]
    cases visit.call.returns <;> rfl
  · rw [if_neg hc, if_neg hc]
    rfl

/-- `POST /api/register` is answered 200 when the service registers. -/
theorem register_ok_iff (hr : IsRegister visit.req) : statusOf cfg pg sha256 users visit = some .ok ↔
    cfg.postgres = true ∧ (formOf visit.req).Complete ∧ visit.call.returns = true ∧
      (registerOf pg sha256 users visit).1 = true := by
  unfold statusOf
  rw [answer_registerReply hr]
  by_cases hp : cfg.postgres = true
  · by_cases hc : (formOf visit.req).Complete
    · rw [if_pos ⟨hp, hc⟩]
      cases hret : visit.call.returns with
      | true =>
        simp only [hp, hc, true_and, if_true]
        show some (registerReply (cfg.withUsers pg sha256) visit.req _).status = some .ok ↔ _
        rw [registerReply_status (show (cfg.withUsers pg sha256).postgres = true from hp) hc]
        cases (registerOf pg sha256 users visit).1 <;> simp
      | false => simp
    · have hne := not_not.mp (mt (complete_iff visit.req).mpr hc)
      rw [if_neg (fun h => hc h.2)]
      refine iff_of_false ?_ (fun h => hc h.2.1)
      unfold registerReply
      rw [if_pos (show (cfg.withUsers pg sha256).postgres = true from hp), if_pos hne]
      intro h
      cases h
  · rw [if_neg (fun h => hp h.1)]
    refine iff_of_false ?_ (fun h => hp h.1)
    unfold registerReply
    rw [if_neg (show ¬ (cfg.withUsers pg sha256).postgres = true from hp)]
    intro h
    cases h

/-- `POST /api/login` is answered 200 when the service finds the user. -/
theorem login_ok_iff (hl : IsLogin visit.req) : statusOf cfg pg sha256 users visit = some .ok ↔
    cfg.postgres = true ∧ (formOf visit.req).Complete ∧ visit.call.returns = true ∧
      login pg sha256 visit.call users (formOf visit.req).username (formOf visit.req).password ≠ none := by
  have hreply : handleApiLogin (cfg.withUsers pg sha256) ⟨users, visit.call⟩ visit.req =
      if cfg.postgres = true ∧ (formOf visit.req).Complete ∧ visit.call.returns = false then .error .terminated
      else .ok (loginReply (cfg.withUsers pg sha256) visit.req
        (login pg sha256 visit.call users (formOf visit.req).username (formOf visit.req).password), ⟨users, visit.call⟩) :=
    handleApiLogin_eq rfl
  unfold statusOf
  rw [answer_login hl, hreply]
  by_cases hp : cfg.postgres = true
  · by_cases hc : (formOf visit.req).Complete
    · cases hret : visit.call.returns with
      | true =>
        rw [if_neg (fun h => by cases h.2.2)]
        show some (loginReply (cfg.withUsers pg sha256) visit.req _).status = some .ok ↔ _
        rw [loginReply_status (show (cfg.withUsers pg sha256).postgres = true from hp) hc]
        simp only [hp, hc, true_and]
        split
        · rename_i hnone
          simp [hnone]
        · rename_i hsome
          simpa using hsome
      | false =>
        rw [if_pos ⟨hp, hc, rfl⟩]
        refine iff_of_false ?_ (fun h => by cases h.2.2.1)
        intro h
        cases h
    · have hne := not_not.mp (mt (complete_iff visit.req).mpr hc)
      rw [if_neg (fun h => hc h.2.1)]
      refine iff_of_false ?_ (fun h => hc h.2.1)
      show some (loginReply (cfg.withUsers pg sha256) visit.req _).status ≠ some .ok
      unfold loginReply
      rw [if_pos (show (cfg.withUsers pg sha256).postgres = true from hp), if_pos hne]
      intro h
      cases h
  · rw [if_neg (fun h => hp h.1)]
    refine iff_of_false ?_ (fun h => hp h.1)
    show some (loginReply (cfg.withUsers pg sha256) visit.req _).status ≠ some .ok
    unfold loginReply
    rw [if_neg (show ¬ (cfg.withUsers pg sha256).postgres = true from hp)]
    intro h
    cases h

theorem called_users {db : Backend} {x r : HttpResponse × Backend} {cfg : Config Backend} (hx : x.2.users = db.users)
    (h : called cfg db x = .ok r) : r.2.users = db.users := by
  unfold called at h
  split at h
  · cases h
    exact hx
  · cases h

/-- No other request of the API changes the table. -/
theorem handleApi_users {sessionId : Nat} {db : Backend} {req : HttpRequest} {r : HttpResponse × Backend}
    (hr : ¬ IsRegister req) (h : handleApi (cfg.withUsers pg sha256) sessionId db req req.path = .ok r) :
    r.2.users = db.users := by
  unfold handleApi at h
  split at h
  · cases h
    rfl
  split at h
  · cases h
    rfl
  split at h
  · have hreply : handleApiLogin (cfg.withUsers pg sha256) db req = _ := handleApiLogin_eq rfl
    rw [hreply] at h
    split at h
    · cases h
    · cases h
      rfl
  split at h
  · rename_i hparts
    exact absurd ⟨hparts.2, hparts.1⟩ hr
  split at h
  · unfold handleApiGetUsers at h
    split at h
    · exact called_users rfl h
    · cases h
      rfl
  split at h
  · unfold handleApiGetUser at h
    split at h
    · dsimp only at h
      split at h
      · cases h
        rfl
      · split at h
        · cases h
        · refine called_users ?_ h
          split
          · rename_i he
            exact congrArg (fun x => x.2.users) he.symm
          · rename_i he
            exact congrArg (fun x => x.2.users) he.symm
    · cases h
      rfl
  · cases h
    rfl

theorem answer_users {sessionId : Nat} {env : Env Backend} {req : HttpRequest} {response : HttpResponse} {db : Backend}
    (hr : ¬ IsRegister req) (h : answer (cfg.withUsers pg sha256) sessionId env req = .ok (response, db)) :
    db.users = env.db.users := by
  by_cases hapi : apiPrefix <+: req.path
  · rw [answer_api hapi] at h
    cases hh : handleApi (cfg.withUsers pg sha256) sessionId env.db req req.path with
    | error e =>
      rw [hh] at h
      cases h
    | ok r =>
      rw [hh] at h
      cases h
      exact handleApi_users hr hh
  · simp only [answer, if_neg (mt (api_routePath req).mp hapi)] at h
    cases hs : serveStatic (cfg.withUsers pg sha256) env.fs (wantsKeepAlive req) (routePath req) with
    | error e =>
      rw [hs] at h
      cases h
    | ok r =>
      rw [hs] at h
      cases h
      rfl

/-- What a registration leaves is what the service leaves, if the call comes back. -/
theorem serve_register (hr : IsRegister visit.req) : (serve cfg pg sha256 users visit).2 =
    if cfg.postgres = true ∧ (formOf visit.req).Complete ∧ visit.call.returns = true then
      (registerOf pg sha256 users visit).2
    else users := by
  unfold serve
  rw [answer_registerReply hr]
  by_cases hc : cfg.postgres = true ∧ (formOf visit.req).Complete
  · rw [if_pos hc]
    cases hret : visit.call.returns with
    | true => rw [if_pos rfl, if_pos ⟨hc.1, hc.2, rfl⟩]
    | false =>
      rw [if_neg (by simp), if_neg (fun h => by cases h.2.2)]
  · rw [if_neg hc, if_neg (fun h => hc ⟨h.1, h.2.1⟩)]

/-- A request leaves the table as it is, or it is a registration answered 200. -/
theorem serve_users (cfg : Config δ) (pg : Postgres) (sha256 : Bytes → List UInt8) (users : Users) (visit : Visit) :
    (serve cfg pg sha256 users visit).2 = users ∨
    (IsRegister visit.req ∧ statusOf cfg pg sha256 users visit = some .ok) := by
  by_cases hr : IsRegister visit.req
  · rw [serve_register hr]
    split
    · rename_i hp
      cases htrue : (registerOf pg sha256 users visit).1 with
      | true => exact .inr ⟨hr, (register_ok_iff hr).mpr ⟨hp.1, hp.2.1, hp.2.2, htrue⟩⟩
      | false => exact .inl (register_false htrue)
    · exact .inl rfl
  · left
    unfold serve
    split
    · rename_i response db ha
      exact answer_users hr ha
    · rfl

/-- The row that a registration leaves, whatever its digest came to. -/
structure LeftBy (pg : Postgres) (sha256 : Bytes → List UInt8) (row : Row) (registration : Visit) : Prop where
  username : Users.column pg 50 (pg.quote (formOf registration.req).username) = some row.username
  password : row.password = hashPassword sha256 registration.call (formOf registration.req).password
  readable : Readable row

/-- A registration answered 200 adds a row. -/
theorem serve_registered (hr : IsRegister visit.req) (hok : statusOf cfg pg sha256 users visit = some .ok) :
    (serve cfg pg sha256 users visit).2 = (registerOf pg sha256 users visit).2 ∧
    (registerOf pg sha256 users visit).1 = true ∧
    ∃ row, (registerOf pg sha256 users visit).2.rows = users.rows ++ [row] ∧ LeftBy pg sha256 row visit := by
  obtain ⟨hp, hc, hret, htrue⟩ := (register_ok_iff hr).mp hok
  obtain ⟨name, mail, hrows, hname, -, -⟩ := register_row htrue
  exact ⟨by rw [serve_register hr, if_pos ⟨hp, hc, hret⟩], htrue, _, hrows, hname, rfl, by simp, by simp⟩

/-! ## (1) The table grows -/

/-- The rows stand in the order of their ids, none of which is still to come, without a NULL. -/
structure Regular (users : Users) : Prop where
  ordered : users.rows.Pairwise fun a b => a.id < b.id
  below : ∀ row ∈ users.rows, row.id ≤ users.serial
  readable : ∀ row ∈ users.rows, Readable row

theorem regular_empty : Regular .empty := by
  refine ⟨.nil, ?_, ?_⟩
  · intro row hm
    cases hm
  · intro row hm
    cases hm

/-- A registration's row has an id beyond those before it. -/
theorem serial_register {call : Call} {username password email : Bytes}
    (h : (register pg sha256 call users username password email).1 = true) :
    users.serial < (register pg sha256 call users username password email).2.serial := by
  obtain ⟨-, -, -, hins⟩ := register_true h
  obtain ⟨-, -, -, -, -, -, -, -, -, -, -, -, -, -, -, hserial⟩ := Users.insert_some hins
  omega

theorem regular_register {call : Call} {username password email : Bytes} (hreg : Regular users)
    (h : (register pg sha256 call users username password email).1 = true) :
    Regular (register pg sha256 call users username password email).2 := by
  obtain ⟨name, mail, hrows, -, -, -⟩ := register_row h
  have hserial := serial_register h
  refine ⟨?_, ?_, ?_⟩
  · rw [hrows, List.pairwise_append]
    refine ⟨hreg.ordered, List.pairwise_singleton _ _, ?_⟩
    intro a ha b hb
    have hbelow := hreg.below a ha
    rw [List.mem_singleton.mp hb]
    show a.id < ((register pg sha256 call users username password email).2.serial : Int)
    omega
  · intro row hm
    simp only [hrows, List.mem_append, List.mem_singleton] at hm
    rcases hm with hm | rfl
    · have hbelow := hreg.below row hm
      omega
    · exact le_refl _
  · intro row hm
    simp only [hrows, List.mem_append, List.mem_singleton] at hm
    rcases hm with hm | rfl
    · exact hreg.readable row hm
    · exact ⟨by simp, by simp⟩

theorem regular_serve (hreg : Regular users) : Regular (serve cfg pg sha256 users visit).2 := by
  rcases serve_users cfg pg sha256 users visit with he | ⟨hr, hok⟩
  · rw [he]
    exact hreg
  · obtain ⟨he, htrue, -⟩ := serve_registered hr hok
    rw [he]
    exact regular_register hreg htrue

/-- The rows that were there stay where they were. -/
theorem rows_serve (cfg : Config δ) (pg : Postgres) (sha256 : Bytes → List UInt8) (users : Users) (visit : Visit) :
    users.rows <+: (serve cfg pg sha256 users visit).2.rows := by
  rcases serve_users cfg pg sha256 users visit with he | ⟨hr, hok⟩
  · rw [he]
  · obtain ⟨he, -, row, hrows, -⟩ := serve_registered hr hok
    rw [he]
    exact ⟨[row], hrows.symm⟩

theorem tableAfter_append (users : Users) (visits visits' : List Visit) :
    tableAfter cfg pg sha256 users (visits ++ visits') =
      tableAfter cfg pg sha256 (tableAfter cfg pg sha256 users visits) visits' := by
  unfold tableAfter
  rw [Machine.outputs_append]

theorem tableAfter_concat (users : Users) (visits : List Visit) (visit : Visit) :
    tableAfter cfg pg sha256 users (visits ++ [visit]) =
      (serve cfg pg sha256 (tableAfter cfg pg sha256 users visits) visit).2 := by
  rw [tableAfter_append]
  rfl

theorem regular_tableAfter (hreg : Regular users) (visits : List Visit) : Regular (tableAfter cfg pg sha256 users visits) := by
  induction visits using List.reverseRecOn with
  | nil => exact hreg
  | append_singleton visits visit ih =>
    rw [tableAfter_concat]
    exact regular_serve ih

theorem rows_tableAfter (visits : List Visit) : ∀ users : Users, users.rows <+: (tableAfter cfg pg sha256 users visits).rows := by
  induction visits with
  | nil => intro users; exact List.prefix_refl _
  | cons visit visits ih => intro users; exact (rows_serve cfg pg sha256 users visit).trans (ih _)

/-- The loop of `GetAllUsers` on more rows goes on where it ended, or ends where it did. -/
theorem readUsers_mono : ∀ {rows rows' : List PublicRow}, rows <+: rows' → readUsers rows <+: readUsers rows'
  | [], rows', _ => List.nil_prefix
  | row :: rows, [], h => absurd (List.prefix_nil.mp h) (by simp)
  | row :: rows, row' :: rows', h => by
    obtain ⟨rfl, hrest⟩ := List.cons_prefix_cons.mp h
    unfold readUsers
    cases readUser row with
    | none => exact List.prefix_refl _
    | some user => exact List.cons_prefix_cons.mpr ⟨rfl, readUsers_mono hrest⟩

/-- A page of an ordered table is a stretch of its rows. -/
theorem selectPage_regular (hreg : Regular users) {limit offset : Int} (hl : 0 ≤ limit) (ho : 0 ≤ offset) :
    users.selectPage limit offset = some ((users.rows.drop offset.toNat).take limit.toNat) := by
  have hle : users.rows.Pairwise fun a b => decide (a.id ≤ b.id) = true :=
    hreg.ordered.imp fun h => by simpa using le_of_lt h
  unfold Users.selectPage
  rw [if_neg (by omega), List.mergeSort_of_pairwise hle]

theorem drop_take_mono {α : Type*} {l l' : List α} (h : l <+: l') (m n : Nat) : (l.drop m).take n <+: (l'.drop m).take n := by
  obtain ⟨t, rfl⟩ := h
  rw [List.drop_append, List.take_append]
  exact List.prefix_append _ _

/-- A listing is whole, and one taken after further requests has it at its head. -/
theorem listing_grows {call call' : Call} {users' : Users} {limit offset : Int} (hreg : Regular users) (hreg' : Regular users')
    (hrows : users.rows <+: users'.rows) (hw : call.works = true) (hw' : call'.works = true) (hl : 0 ≤ limit) (ho : 0 ≤ offset) :
    Whole users limit offset (getAllUsers call users limit offset) ∧
    getAllUsers call users limit offset <+: getAllUsers call' users' limit offset := by
  have hp := selectPage_regular hreg hl ho
  have hp' := selectPage_regular hreg' hl ho
  have hlist : getAllUsers call users limit offset = _ := @getAllUsers_page limit offset _ ⟨users, call⟩ hw hp
  have hlist' : getAllUsers call' users' limit offset = _ := @getAllUsers_page limit offset _ ⟨users', call'⟩ hw' hp'
  rw [hlist, hlist']
  refine ⟨(whole_iff hp).mpr ?_, ?_⟩
  · intro row hm
    exact hreg.readable row (List.mem_of_mem_drop (List.mem_of_mem_take hm))
  · exact readUsers_mono ((drop_take_mono hrows _ _).map _)

/-! ## (2) Who registers -/

variable (cfg pg sha256) in
/-- A registration among the requests, answered 200 in the table that it met. -/
structure RegisteredAt (visits older : List Visit) (registration : Visit) : Prop where
  among : older ++ [registration] <+: visits
  register : IsRegister registration.req
  ok : statusOf cfg pg sha256 (tableAfter cfg pg sha256 .empty older) registration = some .ok

/-- Every row comes of a registration. -/
theorem row_registered (visits : List Visit) : ∀ row ∈ (tableAfter cfg pg sha256 .empty visits).rows,
    ∃ older registration, RegisteredAt cfg pg sha256 visits older registration ∧ LeftBy pg sha256 row registration := by
  induction visits using List.reverseRecOn with
  | nil =>
    intro row hm
    cases hm
  | append_singleton visits visit ih =>
    have hold : ∀ row ∈ (tableAfter cfg pg sha256 .empty visits).rows, ∃ older registration,
        RegisteredAt cfg pg sha256 (visits ++ [visit]) older registration ∧ LeftBy pg sha256 row registration := by
      intro row hm
      obtain ⟨older, registration, hreg, hleft⟩ := ih row hm
      exact ⟨older, registration, ⟨hreg.among.trans (List.prefix_append _ _), hreg.register, hreg.ok⟩, hleft⟩
    intro row hm
    rw [tableAfter_concat] at hm
    rcases serve_users cfg pg sha256 (tableAfter cfg pg sha256 .empty visits) visit with he | ⟨hr, hok⟩
    · rw [he] at hm
      exact hold row hm
    · obtain ⟨he, -, new, hrows, hleft⟩ := serve_registered hr hok
      rw [he, hrows, List.mem_append, List.mem_singleton] at hm
      rcases hm with hm | rfl
      · exact hold row hm
      · exact ⟨visits, visit, ⟨List.prefix_refl _, hr, hok⟩, hleft⟩

/-- Every registration leaves a row. -/
theorem registered_row {visits older : List Visit} {registration : Visit}
    (h : RegisteredAt cfg pg sha256 visits older registration) :
    ∃ row ∈ (tableAfter cfg pg sha256 .empty visits).rows, LeftBy pg sha256 row registration := by
  obtain ⟨newer, rfl⟩ := h.among
  obtain ⟨he, -, row, hrows, hleft⟩ := serve_registered h.register h.ok
  refine ⟨row, ?_, hleft⟩
  rw [tableAfter_append, tableAfter_concat, he]
  exact (rows_tableAfter newer _).subset (by rw [hrows]; simp)

/-- A name that a row has is not registered. -/
theorem name_free (hr : IsRegister visit.req) (hok : statusOf cfg pg sha256 users visit = some .ok) {row : Row}
    (hm : row ∈ users.rows) : Users.column pg 50 (pg.quote (formOf visit.req).username) ≠ some row.username := by
  obtain ⟨-, -, -, htrue⟩ := (register_ok_iff hr).mp hok
  obtain ⟨-, -, -, hins⟩ := register_true htrue
  intro hname
  rw [Users.insert_eq_none_iff.mpr (.inr (.inr (.inr (.inr (.inr ⟨row, hm, hname⟩)))))] at hins
  cases hins

/-- A later registration for the name of an earlier one is not answered 200. -/
theorem not_registered_again {visits older older' : List Visit} {registration again : Visit}
    (h : RegisteredAt cfg pg sha256 visits older registration) (h' : RegisteredAt cfg pg sha256 visits older' again)
    (hsame : Users.column pg 50 (pg.quote (formOf registration.req).username) =
      Users.column pg 50 (pg.quote (formOf again.req).username)) : older'.length ≤ older.length := by
  by_contra hlater
  have hbefore : older ++ [registration] <+: older' := by
    refine List.prefix_of_prefix_length_le h.among ((List.prefix_append _ _).trans h'.among) ?_
    simp only [List.length_append, List.length_singleton]
    omega
  obtain ⟨row, hm, hleft⟩ := registered_row ⟨hbefore, h.register, h.ok⟩
  exact name_free h'.register h'.ok hm (hsame ▸ hleft.username)

/-! ## (3) Who logs in -/

/-- The name of a login selects the row that took the name of a registration. -/
def SameName (pg : Postgres) (registered username : Bytes) : Prop :=
  ∃ name, Users.column pg 50 (pg.quote registered) = some name ∧ Users.text pg (pg.quote username) = some name

/-- Which logins succeed after some requests. -/
theorem login_registered_iff {visits : List Visit} (hdigest : ∀ v ∈ visits, IsRegister v.req → v.call.digest = true)
    (hl : IsLogin visit.req) (hw : visit.call.works = true) (hd : visit.call.digest = true) (hp : cfg.postgres = true) :
    statusOf cfg pg sha256 (tableAfter cfg pg sha256 .empty visits) visit = some .ok ↔
      (formOf visit.req).Complete ∧ ∃ older registration, RegisteredAt cfg pg sha256 visits older registration ∧
        SameName pg (formOf registration.req).username (formOf visit.req).username ∧
        sha256 (formOf registration.req).password = sha256 (formOf visit.req).password := by
  have hdigested : ∀ {older registration}, RegisteredAt cfg pg sha256 visits older registration →
      registration.call.digest = true :=
    fun h => hdigest _ (h.among.subset (by simp)) h.register
  rw [login_ok_iff hl]
  constructor
  · intro hparts
    obtain ⟨-, hc, -, hfound⟩ := hparts
    obtain ⟨user, hin⟩ := Option.ne_none_iff_exists'.mp hfound
    obtain ⟨-, -, -, row, hm, htext, hpassword, -⟩ := login_some.mp hin
    obtain ⟨older, registration, hreg, hleft⟩ := row_registered visits row hm
    refine ⟨hc, older, registration, hreg, ⟨row.username, hleft.username, htext⟩, ?_⟩
    have hhash := hleft.password.symm.trans hpassword
    rw [hashPassword_digested (hdigested hreg), hashPassword_digested hd] at hhash
    exact hex_inj hhash
  · intro hparts
    obtain ⟨hc, older, registration, hreg, ⟨name, hcolumn, htext⟩, hsame⟩ := hparts
    obtain ⟨row, hm, hleft⟩ := registered_row hreg
    have hname : name = row.username := Option.some.inj (hcolumn.symm.trans hleft.username)
    have hpassword : row.password = hashPassword sha256 visit.call (formOf visit.req).password := by
      rw [hleft.password, hashPassword_digested (hdigested hreg), hashPassword_digested hd, hsame]
    obtain ⟨user, hread⟩ := Option.isSome_iff_exists.mp ((readable_iff row).mp hleft.readable)
    refine ⟨hp, hc, Call.returns_of_works hw, ?_⟩
    rw [login_some.mpr ⟨hc.1, hc.2, hw, row, hm, hname ▸ htext, hpassword, hread⟩]
    simp

end BreWebServer.Server
