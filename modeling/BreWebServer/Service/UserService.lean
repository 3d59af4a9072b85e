/-
  BreWebServer.Service.UserService — `UserService` over the table `users`.

  A call meets the pool, the server and OpenSSL in some condition, which is its argument
  (`Call`): whether the pool is initialised, whether something throws on the way to the
  commit, whether the digest is computed. Each function is one transaction, so clients that
  call concurrently call in some order. `operations` is what a session sees of them.

  What throws has no effect: no commit is left in doubt, which the server has carried out
  and could not confirm. A call whose guard finds its connection lost, and cannot open
  another, does not come back: the exception leaves the destructor (`Call.returns`).
-/

import BreWebServer.Database.Users
import BreWebServer.Service.Interface

namespace BreWebServer.Service

open BreWebServer.Cpp BreWebServer.Database

structure Call where
  /-- `pool->IsInitialized()`. -/
  initialized : Bool
  /-- `Acquire`, the transaction or its commit throws, and the transaction has no effect. -/
  fails : Bool
  /-- Every step of the digest succeeds. -/
  digest : Bool
  /-- Values the sequence of ids has given to inserts that failed since the last row. -/
  skipped : Nat
  /-- `CURRENT_TIMESTAMP`, as text. -/
  now : Bytes
  /-- It throws for the loss of its connection, in place of which `Return` can open none. -/
  lost : Bool
  deriving DecidableEq, Repr

/-- The transaction is begun and what it asks for is done. -/
def Call.works (call : Call) : Bool := call.initialized && !call.fails && !call.lost

/-- The call comes back, with an answer or after an exception. -/
def Call.returns (call : Call) : Bool := !(call.initialized && call.lost)

theorem Call.returns_of_works {call : Call} (h : call.works = true) : call.returns = true := by
  simp only [works, Bool.and_eq_true, Bool.not_eq_true'] at h
  simp [returns, h.2]

namespace UserTable

/-! ## Passwords -/

def hexDigit (n : Nat) : UInt8 := if n < 10 then (48 + n).toUInt8 else (87 + n).toUInt8

/-- `std::hex << std::setw(2) << std::setfill('0')`, byte after byte. -/
def hex (bytes : List UInt8) : Bytes := bytes.flatMap fun b => [hexDigit (b.toNat / 16), hexDigit (b.toNat % 16)]

variable (pg : Postgres) (sha256 : Bytes → List UInt8)

def hashPassword (call : Call) (password : Bytes) : Bytes := if call.digest then hex (sha256 password) else []

def verifyPassword (call : Call) (password hash : Bytes) : Bool := hashPassword sha256 call password == hash

/-! ## The operations -/

/-- The fields of a `User` read off a row; `as<std::string>` throws on NULL. -/
def readUser (row : PublicRow) : Option User :=
  row.email.bind fun email => row.createdAt.map fun createdAt => ⟨row.id, row.username, email, createdAt⟩

def register (call : Call) (users : Users) (username password email : Bytes) : Bool × Users :=
  if username = [] ∨ password = [] then (false, users)
  else if call.works = false then (false, users)
  else
    match users.insert pg (users.serial + call.skipped + 1) (pg.quote username)
        (pg.quote (hashPassword sha256 call password)) (pg.quote email) call.now with
    | some users => (true, users)
    | none => (false, users)

def login (call : Call) (users : Users) (username password : Bytes) : Option User :=
  if username = [] ∨ password = [] then none
  else if call.works = false then none
  else
    match users.selectByUsername pg (pg.quote username) with
    | some (row :: _) => if verifyPassword sha256 call password row.password then readUser row.toPublicRow else none
    | _ => none

def getUserById (call : Call) (users : Users) (id : Int) : Option User :=
  if call.works = false then none
  else
    match (users.selectById id).map (·.toPublicRow) with
    | row :: _ => readUser row
    | [] => none

def getUserByUsername (call : Call) (users : Users) (username : Bytes) : Option User :=
  if call.works = false then none
  else
    match (users.selectByUsername pg (pg.quote username)).map (·.map (·.toPublicRow)) with
    | some (row :: _) => readUser row
    | _ => none

/-- `GetAllUsers`' loop; an exception ends it. -/
def readUsers : List PublicRow → List User
  | [] => []
  | row :: rows =>
    match readUser row with
    | some user => user :: readUsers rows
    | none => []

def getAllUsers (call : Call) (users : Users) (limit offset : Int) : List User :=
  if call.works = false then []
  else
    match (users.selectPage limit offset).map (·.map (·.toPublicRow)) with
    | some rows => readUsers rows
    | none => []

def deleteUser (call : Call) (users : Users) (id : Int) : Bool × Users :=
  if call.works = false then (false, users) else (true, users.deleteById id)

variable {pg sha256} {call : Call} {users : Users} {username password email : Bytes}

/-! ## What a hash looks like -/

theorem hexDigit_inj {m n : Nat} (hm : m < 16) (hn : n < 16) (h : hexDigit m = hexDigit n) : m = n := by
  have hall : ∀ m n : Fin 16, hexDigit m = hexDigit n → m = n := by decide
  have := hall ⟨m, hm⟩ ⟨n, hn⟩ h
  simpa using this

/-- Two digits a byte: the rendering loses nothing. -/
theorem hex_inj : ∀ {a b : List UInt8}, hex a = hex b → a = b
  | [], [], _ => rfl
  | [], _ :: _, h => by simp [hex] at h
  | _ :: _, [], h => by simp [hex] at h
  | x :: a, y :: b, h => by
    simp only [hex, List.flatMap_cons, List.cons_append, List.nil_append, List.cons.injEq] at h
    obtain ⟨hhigh, hlow, h⟩ := h
    have hx := x.toNat_lt
    have hy := y.toNat_lt
    have h1 := hexDigit_inj (by omega) (by omega) hhigh
    have h2 := hexDigit_inj (by omega) (by omega) hlow
    rw [hex_inj h, UInt8.toNat_inj.mp (show x.toNat = y.toNat by omega)]

/-- A rendering is made of digits and letters. -/
theorem hex_clean {c : UInt8} (hc : ∀ n : Fin 16, hexDigit n ≠ c) (bytes : List UInt8) : c ∉ hex bytes := by
  intro h
  obtain ⟨b, -, hb⟩ := List.mem_flatMap.mp h
  have hlt := b.toNat_lt
  simp only [List.mem_cons, List.not_mem_nil, or_false] at hb
  rcases hb with hb | hb
  · exact hc ⟨b.toNat / 16, by omega⟩ hb.symm
  · exact hc ⟨b.toNat % 16, by omega⟩ hb.symm

/-- A digest of 32 bytes is rendered as something. -/
theorem hex_ne_nil {digest : List UInt8} (h : digest.length = 32) : hex digest ≠ [] := by
  intro hhex
  rw [hex_inj (b := []) hhex] at h
  cases h

theorem hashPassword_digested (h : call.digest = true) (password : Bytes) :
    hashPassword sha256 call password = hex (sha256 password) := by
  rw [hashPassword, if_pos h]

theorem hashPassword_failed (h : call.digest = false) (password : Bytes) : hashPassword sha256 call password = [] := by
  rw [hashPassword, h]
  rfl

theorem hashPassword_clean {c : UInt8} (hc : ∀ n : Fin 16, hexDigit n ≠ c) (call : Call) (password : Bytes) :
    c ∉ hashPassword sha256 call password := by
  unfold hashPassword
  split
  · exact hex_clean hc _
  · exact List.not_mem_nil

/-! ## What they do -/

/-- A failed registration leaves the table as it was. -/
theorem register_false (h : (register pg sha256 call users username password email).1 = false) :
    (register pg sha256 call users username password email).2 = users := by
  unfold register at h ⊢
  split
  · rfl
  · split
    · rfl
    · split
      · simp_all
      · rfl

theorem register_true (h : (register pg sha256 call users username password email).1 = true) :
    username ≠ [] ∧ password ≠ [] ∧ call.works = true ∧
    users.insert pg (users.serial + call.skipped + 1) (pg.quote username)
      (pg.quote (hashPassword sha256 call password)) (pg.quote email) call.now =
        some (register pg sha256 call users username password email).2 := by
  unfold register at h ⊢
  split at h
  · cases h
  · rename_i hne
    rw [not_or] at hne
    rw [if_neg (by rw [not_or]; exact hne)]
    split at h
    · cases h
    · rename_i hw
      rw [if_neg hw]
      split at h
      · rename_i users' hi
        exact ⟨hne.1, hne.2, by simpa using hw, hi⟩
      · cases h

theorem register_eq_false_iff : (register pg sha256 call users username password email).1 = false ↔
    username = [] ∨ password = [] ∨ call.works = false ∨
    users.insert pg (users.serial + call.skipped + 1) (pg.quote username)
      (pg.quote (hashPassword sha256 call password)) (pg.quote email) call.now = none := by
  unfold register
  by_cases hne : username = [] ∨ password = []
  · rw [if_pos hne]
    rcases hne with h | h <;> simp [h]
  · rw [if_neg hne]
    rw [not_or] at hne
    cases hw : call.works with
    | false => simp
    | true =>
      simp only [hne.1, hne.2, Bool.true_eq_false, if_false, false_or]
      cases users.insert pg (users.serial + call.skipped + 1) (pg.quote username)
        (pg.quote (hashPassword sha256 call password)) (pg.quote email) call.now <;> simp

/-- A registration adds a row of what its columns take, with what its digest came to. -/
theorem register_row (h : (register pg sha256 call users username password email).1 = true) :
    ∃ name mail,
      (register pg sha256 call users username password email).2.rows = users.rows ++
        [⟨⟨(register pg sha256 call users username password email).2.serial, name, some mail, some call.now⟩,
          hashPassword sha256 call password⟩] ∧
      Users.column pg 50 (pg.quote username) = some name ∧ Users.column pg 100 (pg.quote email) = some mail ∧
      ∀ old ∈ users.rows, old.id ≠ (register pg sha256 call users username password email).2.serial := by
  obtain ⟨-, -, -, hins⟩ := register_true h
  obtain ⟨u, p, e, u', p', e', htu, htp, hte, hvu, hvp, hve, hid, -, hrows, hserial⟩ := Users.insert_some hins
  obtain rfl := Users.text_quote_some (hashPassword_clean (by decide) call password) htp
  obtain rfl := Users.varchar_unspaced hvp (hashPassword_clean (by decide) call password)
  refine ⟨u', e', by rw [hrows, hserial], by simp [Users.column, htu, hvu], by simp [Users.column, hte, hve], ?_⟩
  intro old hold he
  rw [hserial] at he
  exact hid (List.mem_map.mpr ⟨old, hold, he⟩)

/-- `Login` answers with the one row of its name, if the password's hash is the row's. -/
theorem login_some {user : User} :
    login pg sha256 call users username password = some user ↔
      username ≠ [] ∧ password ≠ [] ∧ call.works = true ∧
      ∃ row ∈ users.rows, Users.text pg (pg.quote username) = some row.username ∧
        row.password = hashPassword sha256 call password ∧ readUser row.toPublicRow = some user := by
  unfold login
  by_cases hne : username = [] ∨ password = []
  · rw [if_pos hne]
    refine iff_of_false (by intro h; cases h) ?_
    intro hparts
    obtain ⟨hu, hp, -⟩ := hparts
    exact hne.elim hu hp
  rw [if_neg hne]
  rw [not_or] at hne
  cases hw : call.works with
  | false => simp
  | true =>
    simp only [Users.selectByUsername, Bool.true_eq_false, if_false]
    cases htext : Users.text pg (pg.quote username) with
    | none => simp
    | some name =>
      simp only [Option.map_some, Option.some.injEq]
      refine ⟨?_, ?_⟩
      · intro h
        split at h
        · rename_i row rest he
          have hm : row ∈ users.rows.filter (·.username = name) := by simp [Option.some.inj he]
          simp only [List.mem_filter, decide_eq_true_eq] at hm
          split at h
          · rename_i hverify
            exact ⟨hne.1, hne.2, trivial, row, hm.1, hm.2.symm, (beq_iff_eq.mp hverify).symm, h⟩
          · cases h
        · cases h
      · intro hparts
        obtain ⟨-, -, -, row, hm, hname, hp, hread⟩ := hparts
        obtain ⟨rest, hf⟩ := Users.filter_username hm hname.symm
        rw [hf]
        simp only [verifyPassword, hp, beq_self_eq_true, if_true]
        exact hread

theorem readUser_eq_none_iff {row : PublicRow} : readUser row = none ↔ row.email = none ∨ row.createdAt = none := by
  unfold readUser
  cases row.email <;> cases row.createdAt <;> simp

theorem readUser_some {row : PublicRow} {user : User} (h : readUser row = some user) :
    user.id = row.id ∧ user.username = row.username ∧ row.email = some user.email := by
  obtain ⟨email, hemail, h⟩ := Option.bind_eq_some_iff.mp h
  obtain ⟨createdAt, -, rfl⟩ := Option.map_eq_some_iff.mp h
  exact ⟨rfl, rfl, hemail⟩

/-- A working `GetUserById` reads the row of that id. -/
theorem getUserById_found (hw : call.works = true) {row : Row} (hm : row ∈ users.rows) :
    getUserById call users row.id = readUser row.toPublicRow := by
  obtain ⟨rest, hf⟩ := Users.filter_id hm rfl
  simp [getUserById, hw, hf]

theorem getUserById_missing {id : Int} (h : ∀ row ∈ users.rows, row.id ≠ id) : getUserById call users id = none := by
  have hf : users.selectById id = [] := by
    simp only [Users.selectById, List.filter_eq_nil_iff, decide_eq_true_eq]
    exact h
  simp [getUserById, hf]

theorem deleteUser_cases (call : Call) (users : Users) (id : Int) :
    (call.works = false ∧ deleteUser call users id = (false, users)) ∨
    (call.works = true ∧ deleteUser call users id = (true, users.deleteById id)) := by
  unfold deleteUser
  cases hw : call.works with
  | false => exact .inl ⟨rfl, rfl⟩
  | true => exact .inr ⟨rfl, rfl⟩

/-! ## What a session sees -/

/-- The table, and the condition in which the next call meets it. -/
structure Backend where
  users : Users
  call : Call

variable (pg sha256) in
def operations : UserService Backend where
  returns db := db.call.returns
  register db username password email :=
    let (success, users) := register pg sha256 db.call db.users username password email
    (success, { db with users })
  login db username password := (login pg sha256 db.call db.users username password, db)
  getAllUsers db limit offset := (getAllUsers db.call db.users limit offset, db)
  getUserById db id := (getUserById db.call db.users id, db)

end UserTable

end BreWebServer.Service
