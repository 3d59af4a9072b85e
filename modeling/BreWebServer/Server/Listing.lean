/-
  BreWebServer.Server.Listing — `GetAllUsers` and `GET /api/users`.

  (1) The loop of `GetAllUsers` fills its result row by row inside the `try`, so a NULL ends
  it and what was read before is returned: the result is all of the page or nothing exactly
  when every row of the page can be read, or not even the first (`Unbroken`).

  (2) The handler reports success whatever the service returned, so that, where the call
  comes back, it lists the whole page exactly when every row of it can be read and the query
  worked, or there is nothing to list (`Shown`).

  Both are `listing_iff`; `null_truncates_list` is a table of two users that lists one.
-/

import BreWebServer.Server.StatusCodes

namespace BreWebServer.Server

open BreWebServer.Cpp BreWebServer.Database BreWebServer.Http BreWebServer.Service BreWebServer.Service.UserTable

/-! ## (1) The service -/

/-- `result` is all of the page, in the order of ids. -/
structure Whole (users : Users) (limit offset : Int) (result : List User) : Prop where
  rows : ∃ rows, users.selectPage limit offset = some rows ∧
    rows.map (fun row => readUser row.toPublicRow) = result.map some
  ordered : (result.map (·.id)).Pairwise (· < ·)

def AllOrNothing (db : Backend) (limit offset : Int) : Prop :=
  getAllUsers db.call db.users limit offset = [] ∨ Whole db.users limit offset (getAllUsers db.call db.users limit offset)

/-- If the query works, every row of the page can be read, or the first cannot. -/
def Unbroken (db : Backend) (limit offset : Int) : Prop :=
  db.call.works = true → ∀ rows, db.users.selectPage limit offset = some rows →
    (∀ row ∈ rows, Readable row) ∨ ∀ row ∈ rows.head?, ¬ Readable row

variable {users : Users} {limit offset : Int} {rows : List Row} {db : Backend}

theorem readUsers_whole_iff : ∀ rows : List PublicRow,
    rows.map readUser = (readUsers rows).map some ↔ ∀ row ∈ rows, (readUser row).isSome = true
  | [] => by simp [readUsers]
  | row :: rows => by
    unfold readUsers
    cases hr : readUser row with
    | none => simp [hr]
    | some user => simpa [hr] using readUsers_whole_iff rows

theorem readUsers_eq_nil_iff (rows : List PublicRow) :
    readUsers rows = [] ↔ ∀ row ∈ rows.head?, ¬ (readUser row).isSome = true := by
  cases rows with
  | nil => simp [readUsers]
  | cons row rows =>
    unfold readUsers
    cases hr : readUser row <;> simp [hr]

/-- Users that were read off rows have their ids. -/
theorem ids_of_read : ∀ {rows : List Row} {result : List User},
    rows.map (fun row => readUser row.toPublicRow) = result.map some → result.map (·.id) = rows.map (·.id)
  | [], [], _ => rfl
  | row :: rows, user :: result, h => by
    simp only [List.map_cons, List.cons.injEq] at h ⊢
    exact ⟨(readUser_some h.1).1, ids_of_read h.2⟩

theorem whole_of_read {result : List User} (hp : users.selectPage limit offset = some rows)
    (h : rows.map (fun row => readUser row.toPublicRow) = result.map some) : Whole users limit offset result := by
  refine ⟨⟨rows, hp, h⟩, ?_⟩
  rw [ids_of_read h]
  exact Users.selectPage_ordered hp

theorem getAllUsers_page (hw : db.call.works = true) (hp : db.users.selectPage limit offset = some rows) :
    getAllUsers db.call db.users limit offset = readUsers (rows.map (·.toPublicRow)) := by
  simp [getAllUsers, hw, hp]

theorem getAllUsers_failed (hw : ¬ db.call.works = true) : getAllUsers db.call db.users limit offset = [] := by
  simp [getAllUsers, hw]

/-- The loop lists the whole page when it stumbles over no row. -/
theorem whole_iff (hp : users.selectPage limit offset = some rows) :
    Whole users limit offset (readUsers (rows.map (·.toPublicRow))) ↔ ∀ row ∈ rows, Readable row := by
  have hread : rows.map (fun row => readUser row.toPublicRow) = (readUsers (rows.map (·.toPublicRow))).map some ↔
      ∀ row ∈ rows, Readable row := by
    have h := readUsers_whole_iff (rows.map (·.toPublicRow))
    simp only [List.map_map, List.forall_mem_map, ← readable_iff] at h
    exact h
  refine ⟨?_, ?_⟩
  · intro h
    obtain ⟨rows', hp', hrows⟩ := h.rows
    rw [hp] at hp'
    cases hp'
    exact hread.mp hrows
  · intro h
    exact whole_of_read hp (hread.mpr h)

theorem allOrNothing_iff : AllOrNothing db limit offset ↔ Unbroken db limit offset := by
  unfold AllOrNothing Unbroken
  by_cases hw : db.call.works = true
  · simp only [hw, forall_const]
    cases hp : db.users.selectPage limit offset with
    | none => simp [getAllUsers, hp]
    | some rows =>
      rw [getAllUsers_page hw hp, whole_iff hp, readUsers_eq_nil_iff]
      simp only [Option.some.injEq, forall_eq', List.head?_map, Option.mem_def, Option.map_eq_some_iff,
        forall_exists_index, and_imp, forall_apply_eq_imp_iff₂, ← readable_iff]
      exact or_comm
  · exact iff_of_true (.inl (getAllUsers_failed hw)) (fun h => absurd h hw)

/-! ## (2) The handler -/

/-- The response that lists `users`. -/
def usersReply {δ : Type} (cfg : Config δ) (users : List User) : HttpResponse :=
  let items := users.map fun user => Json.obj (userFields user)
  jsonReply cfg (if items = [] then [] else [(ascii "users", .arr items)])

/-- A successful answer is the list of the whole first page. -/
def ListsWhole {δ : Type} (cfg : Config δ) (pg : Postgres) (sha256 : Bytes → List UInt8) (sessionId : Nat)
    (env : Env Backend) (req : HttpRequest) : Prop :=
  ∀ response db, answer (cfg.withUsers pg sha256) sessionId env req = .ok (response, db) → response.status = .ok →
    ∃ result, Whole env.db.users 100 0 result ∧ response.body = (usersReply cfg result).body

/-- The query works, or there is nothing to list; and every row of the first page can be read. -/
def Shown (db : Backend) : Prop :=
  (db.call.works = true ∨ db.users.rows = []) ∧
  ∀ rows, db.users.selectPage 100 0 = some rows → ∀ row ∈ rows, Readable row

/-- A list with users in it is not rendered as one without. -/
def Separates (render : Json → Bytes) : Prop :=
  ∀ items, items ≠ [] → render (.obj [(ascii "success", .bool true), (ascii "users", .arr items)]) ≠
    render (.obj [(ascii "success", .bool true)])

variable {δ : Type} {cfg : Config δ} {pg : Postgres} {sha256 : Bytes → List UInt8} {sessionId : Nat} {env : Env Backend}
  {req : HttpRequest}

theorem jsonReply_body (cfg : Config δ) (fields : List (Bytes × Json)) :
    (jsonReply cfg fields).body = cfg.render (.obj ((ascii "success", .bool true) :: fields)) := rfl

/-- Only the empty list reads as empty. -/
theorem nil_of_reads_empty (hrender : Separates cfg.render) {result : List User}
    (h : (usersReply cfg []).body = (usersReply cfg result).body) : result = [] := by
  by_contra hne
  have hitems : result.map (fun user => Json.obj (userFields user)) ≠ [] := by simpa using hne
  simp only [usersReply, List.map_nil, hitems, if_true, if_false, jsonReply_body] at h
  exact hrender _ hitems h.symm

theorem selectPage_first (users : Users) : ∃ rows, users.selectPage 100 0 = some rows ∧ (rows = [] ↔ users.rows = []) := by
  refine ⟨_, if_neg (by decide), ?_⟩
  simp [← List.length_eq_zero_iff]

/-- What the handler answers when the call comes back. -/
theorem answer_usersReply (hp : cfg.postgres = true) (hg : IsGetUsers req) (hret : env.db.call.returns = true) :
    answer (cfg.withUsers pg sha256) sessionId env req =
      .ok ((usersReply (cfg.withUsers pg sha256) (getAllUsers env.db.call env.db.users 100 0)).setKeepAlive
        (wantsKeepAlive req), env.db) := by
  rw [answer_getUsers hg]
  unfold handleApiGetUsers
  rw [if_pos (show (cfg.withUsers pg sha256).postgres = true from hp),
    called_ok (show (cfg.withUsers pg sha256).service.returns env.db = true from hret)]
  rfl

/-- The handler's answer is a success, of what the service returned. -/
theorem listsWhole_service (hp : cfg.postgres = true) (hg : IsGetUsers req) (hret : env.db.call.returns = true) :
    ListsWhole cfg pg sha256 sessionId env req ↔ ∃ result, Whole env.db.users 100 0 result ∧
      (usersReply cfg (getAllUsers env.db.call env.db.users 100 0)).body = (usersReply cfg result).body := by
  have ha : answer (cfg.withUsers pg sha256) sessionId env req = _ := answer_usersReply hp hg hret
  refine ⟨?_, ?_⟩
  · intro h
    obtain ⟨result, hwhole, hbody⟩ := h _ _ ha rfl
    exact ⟨result, hwhole, hbody⟩
  · intro h response db hok _
    rw [ha] at hok
    cases hok
    exact h

/-- No list is shown without the database, or where the call does not come back. -/
theorem listsWhole_unanswered (hg : IsGetUsers req) (h : ¬ (cfg.postgres = true ∧ env.db.call.returns = true)) :
    ListsWhole cfg pg sha256 sessionId env req := by
  have ha : answer (cfg.withUsers pg sha256) sessionId env req = _ := answer_getUsers hg
  unfold handleApiGetUsers at ha
  intro response db hok hstatus
  rw [ha] at hok
  by_cases hp : cfg.postgres = true
  · have hlost : (cfg.withUsers pg sha256).service.returns env.db = false := by
      rw [← Bool.not_eq_true]
      exact fun hret => h ⟨hp, hret⟩
    rw [if_pos (show (cfg.withUsers pg sha256).postgres = true from hp), called_lost hlost] at hok
    cases hok
  · rw [if_neg (show ¬ (cfg.withUsers pg sha256).postgres = true from hp)] at hok
    cases hok
    cases hstatus

theorem listsWhole_iff (hrender : Separates cfg.render) (hg : IsGetUsers req) :
    ListsWhole cfg pg sha256 sessionId env req ↔
      (cfg.postgres = true → env.db.call.returns = true → Shown env.db) := by
  by_cases hcalled : cfg.postgres = true ∧ env.db.call.returns = true
  · obtain ⟨hp, hret⟩ := hcalled
    obtain ⟨rows, hrows, hempty⟩ := selectPage_first env.db.users
    rw [listsWhole_service hp hg hret]
    unfold Shown
    simp only [hp, hret, forall_const, hrows, Option.some.injEq, forall_eq']
    refine ⟨?_, ?_⟩
    · intro h
      obtain ⟨result, hwhole, hbody⟩ := h
      obtain ⟨rows', hrows', hread⟩ := hwhole.rows
      rw [hrows] at hrows'
      cases hrows'
      refine ⟨?_, ?_⟩
      · by_contra hneither
        rw [not_or] at hneither
        rw [getAllUsers_failed hneither.1] at hbody
        rw [nil_of_reads_empty hrender hbody, List.map_nil, List.map_eq_nil_iff] at hread
        exact hneither.2 (hempty.mp hread)
      · intro row hm
        have hmem : readUser row.toPublicRow ∈ result.map some := by
          rw [← hread]
          exact List.mem_map_of_mem hm
        obtain ⟨user, -, huser⟩ := List.mem_map.mp hmem
        rw [readable_iff, ← huser]
        rfl
    · intro hparts
      obtain ⟨hquery, hread⟩ := hparts
      by_cases hw : env.db.call.works = true
      · rw [getAllUsers_page hw hrows]
        exact ⟨_, (whole_iff hrows).mpr hread, rfl⟩
      · have hnil : rows = [] := hempty.mpr (hquery.resolve_left hw)
        subst hnil
        rw [getAllUsers_failed hw]
        exact ⟨[], whole_of_read hrows rfl, rfl⟩
  · exact iff_of_true (listsWhole_unanswered hg hcalled) (fun hp hret => absurd ⟨hp, hret⟩ hcalled)

theorem listing_iff (cfg : Config δ) (hrender : Separates cfg.render) (pg : Postgres) (sha256 : Bytes → List UInt8)
    (sessionId : Nat) (env : Env Backend) (req : HttpRequest) (limit offset : Int) :
    (AllOrNothing env.db limit offset ∧ (IsGetUsers req → ListsWhole cfg pg sha256 sessionId env req)) ↔
    (Unbroken env.db limit offset ∧
      (cfg.postgres = true → env.db.call.returns = true → IsGetUsers req → Shown env.db)) := by
  rw [allOrNothing_iff]
  refine ⟨?_, ?_⟩
  · intro hparts
    obtain ⟨hservice, hlists⟩ := hparts
    exact ⟨hservice, fun hp hret hg => (listsWhole_iff hrender hg).mp (hlists hg) hp hret⟩
  · intro hparts
    obtain ⟨hservice, hshown⟩ := hparts
    exact ⟨hservice, fun hg => (listsWhole_iff hrender hg).mpr (fun hp hret => hshown hp hret hg)⟩

/-! ## A table with a NULL -/

mutual

/-- JSON without blanks, of numbers that are not negative and texts that need no escape. -/
def compact : Json → Bytes
  | .bool true => ascii "true"
  | .bool false => ascii "false"
  | .num n => decimalString n.toNat
  | .str s => 34 :: (s ++ [34])
  | .obj fields => 123 :: (compactFields fields ++ [125])
  | .arr items => 91 :: (compactItems items ++ [93])

def compactFields : List (Bytes × Json) → Bytes
  | [] => []
  | [(key, value)] => 34 :: (key ++ [34, 58] ++ compact value)
  | (key, value) :: field :: fields => 34 :: (key ++ [34, 58] ++ compact value) ++ 44 :: compactFields (field :: fields)

def compactItems : List Json → Bytes
  | [] => []
  | [item] => compact item
  | item :: next :: items => compact item ++ 44 :: compactItems (next :: items)

end

theorem compact_separates : Separates compact := by
  intro items _ h
  have hlen := congrArg List.length h
  simp [compact, compactFields] at hlen

def listingConfig : Config Unit := { databaseConfig with render := compact }

/-- "ada", and "bob" without an email. -/
def withNull : Users :=
  ⟨[⟨⟨1, ascii "ada", some (ascii "ada@x"), some (ascii "1815-12-10")⟩, []⟩,
    ⟨⟨2, ascii "bob", none, some (ascii "1815-12-11")⟩, []⟩], 2, by decide, by decide⟩

def nullBackend : Backend := ⟨withNull, Accounts.works⟩

/-- One of the two users is listed, as a success. -/
theorem null_truncates_list :
    (∃ response, answer (listingConfig.withUsers .singleByte Accounts.digestOf) 1 ⟨site, nullBackend⟩
        (requestFor .get (ascii "/api/users")) = .ok (response, nullBackend) ∧ response.status = .ok ∧
      response.body = (usersReply listingConfig [⟨1, ascii "ada", ascii "ada@x", ascii "1815-12-10"⟩]).body) ∧
    ¬ (AllOrNothing nullBackend 100 0 ∧
      (IsGetUsers (requestFor .get (ascii "/api/users")) → ListsWhole listingConfig .singleByte Accounts.digestOf 1
        ⟨site, nullBackend⟩ (requestFor .get (ascii "/api/users")))) := by
  have hpage : nullBackend.users.selectPage 100 0 = some withNull.rows := by
    unfold Users.selectPage
    rw [List.mergeSort_of_pairwise (by decide)]
    rfl
  have hlist : getAllUsers nullBackend.call nullBackend.users 100 0 =
      [⟨1, ascii "ada", ascii "ada@x", ascii "1815-12-10"⟩] := getAllUsers_page rfl hpage
  have ha : answer (listingConfig.withUsers .singleByte Accounts.digestOf) 1 ⟨site, nullBackend⟩
      (requestFor .get (ascii "/api/users")) = _ := answer_usersReply rfl ⟨rfl, rfl⟩ rfl
  refine ⟨⟨_, ha, rfl, ?_⟩, ?_⟩
  · rw [← hlist]
    rfl
  · intro hboth
    rcases allOrNothing_iff.mp hboth.1 rfl withNull.rows hpage with hall | hfirst
    · exact (hall ⟨⟨2, ascii "bob", none, some (ascii "1815-12-11")⟩, []⟩ (by decide)).1 rfl
    · exact hfirst _ rfl ⟨by decide, by decide⟩

/-- "ada" and "bob", each with an email. -/
def withoutNull : Users :=
  ⟨[⟨⟨1, ascii "ada", some (ascii "ada@x"), some (ascii "1815-12-10")⟩, []⟩,
    ⟨⟨2, ascii "bob", some (ascii "bob@x"), some (ascii "1815-12-11")⟩, []⟩], 2, by decide, by decide⟩

/-- Without the NULL, and with the database, the list is whole. -/
theorem two_users_listed :
    (AllOrNothing ⟨withoutNull, Accounts.works⟩ 100 0 ∧
      (IsGetUsers (requestFor .get (ascii "/api/users")) → ListsWhole listingConfig .singleByte Accounts.digestOf 1
        ⟨site, ⟨withoutNull, Accounts.works⟩⟩ (requestFor .get (ascii "/api/users")))) ↔
    (Unbroken ⟨withoutNull, Accounts.works⟩ 100 0 ∧
      (listingConfig.postgres = true → Accounts.works.returns = true → IsGetUsers (requestFor .get (ascii "/api/users")) →
        Shown ⟨withoutNull, Accounts.works⟩)) :=
  listing_iff listingConfig compact_separates .singleByte Accounts.digestOf 1
    ⟨site, ⟨withoutNull, Accounts.works⟩⟩ (requestFor .get (ascii "/api/users")) 100 0

end BreWebServer.Server
