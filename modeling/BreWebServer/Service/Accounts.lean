/-
  BreWebServer.Service.Accounts — accounts behave as registered.

  A history is the table together with a log of the registrations and the deletions that
  succeeded. `Logged` ties the two: the rows are the accounts registered and not deleted
  since, each as a relation has it. It is kept by every operation (`logged_step`), for one
  with the columns as they take an account (`Stores`).

  Proved: `Login` answers by the log in every state of a run, names are unique, and what is
  refused changes nothing, exactly when no registration that goes through is longer than its
  columns (`accounts_as_registered_iff`): PostgreSQL cuts the spaces that are too much off a
  text, and `Register` answers true (`trailing_space_lost`).
-/

import BreWebServer.Lib.Machine
import BreWebServer.Service.UserService

namespace BreWebServer.Service

open BreWebServer.Cpp BreWebServer.Database BreWebServer.Lib BreWebServer.Service.UserTable

namespace Accounts

/-! ## What was registered -/

structure Account where
  id : Int
  username : Bytes
  password : Bytes
  email : Bytes
  deriving DecidableEq, Repr

inductive Entry where
  | registered (account : Account)
  | deleted (id : Int)
  deriving DecidableEq, Repr

/-- An account that was registered, and whose row has not been deleted since. -/
def Registered (log : List Entry) (a : Account) : Prop :=
  ∃ older newer, log = older ++ .registered a :: newer ∧ .deleted a.id ∉ newer

theorem not_registered_nil (a : Account) : ¬ Registered [] a := by
  intro hparts
  obtain ⟨older, newer, h, -⟩ := hparts
  simp at h

/-- An entry after an account's own leaves it registered unless it deletes it. -/
theorem registered_concat {log : List Entry} {e : Entry} {a : Account} :
    Registered (log ++ [e]) a ↔ e = .registered a ∨ Registered log a ∧ e ≠ .deleted a.id := by
  constructor
  · intro ⟨older, newer, h, hn⟩
    rcases List.eq_nil_or_concat newer with rfl | ⟨newer, e', rfl⟩
    · obtain ⟨-, he⟩ := List.append_inj' h rfl
      left
      simpa using he
    · have h : log ++ [e] = (older ++ .registered a :: newer) ++ [e'] := by simpa using h
      obtain ⟨hl, he⟩ := List.append_inj' h rfl
      simp only [List.cons.injEq, and_true] at he
      simp only [List.concat_eq_append, List.mem_append, List.mem_singleton, not_or] at hn
      exact .inr ⟨⟨older, newer, hl, hn.1⟩, by rw [he]; exact fun h => hn.2 h.symm⟩
  · intro hcases
    rcases hcases with rfl | ⟨⟨older, newer, rfl, hn⟩, he⟩
    · exact ⟨log, [], rfl, List.not_mem_nil⟩
    · refine ⟨older, newer ++ [e], by simp, ?_⟩
      simp only [List.mem_append, List.mem_singleton, not_or]
      exact ⟨hn, fun h => he h.symm⟩

/-! ## Histories -/

structure History where
  users : Users
  log : List Entry

def new : History := ⟨.empty, []⟩

inductive Op where
  | register (call : Call) (username password email : Bytes)
  | login (call : Call) (username password : Bytes)
  | getUserById (call : Call) (id : Int)
  | getUserByUsername (call : Call) (username : Bytes)
  | getAllUsers (call : Call) (limit offset : Int)
  | deleteUser (call : Call) (id : Int)

variable (pg : Postgres) (sha256 : Bytes → List UInt8)

def step (s : History) : Op → Option History
  | .register call username password email =>
    match register pg sha256 call s.users username password email with
    | (true, users) => some ⟨users, s.log ++ [.registered ⟨users.serial, username, password, email⟩]⟩
    | (false, users) => some { s with users }
  | .deleteUser call id =>
    match deleteUser call s.users id with
    | (true, users) => some ⟨users, s.log ++ [.deleted id]⟩
    | (false, users) => some { s with users }
  | .login _ _ _ | .getUserById _ _ | .getUserByUsername _ _ | .getAllUsers _ _ _ => some s

/-- The texts are free of NUL, the passwords are of `P`, and the digest is computed. -/
def Op.Plain (P : Set Bytes) : Op → Prop
  | .register call username password email => 0 ∉ username ∧ 0 ∉ email ∧ password ∈ P ∧ call.digest = true
  | .login call username password => 0 ∉ username ∧ password ∈ P ∧ call.digest = true
  | .getUserByUsername _ username => 0 ∉ username
  | .getUserById _ _ | .getAllUsers _ _ _ | .deleteUser _ _ => True

/-- A registration that returns false, or a login that returns nothing. -/
def Refused (s : History) : Op → Prop
  | .register call username password email => (register pg sha256 call s.users username password email).1 = false
  | .login call username password => login pg sha256 call s.users username password = none
  | _ => False

/-- Every `Login` whose statements work answers by the log. -/
def Faithful (P : Set Bytes) (s : History) : Prop :=
  ∀ call username password, call.works = true → call.digest = true → 0 ∉ username → password ∈ P →
    (∀ user, login pg sha256 call s.users username password = some user →
      Registered s.log ⟨user.id, username, password, user.email⟩ ∧ user.username = username) ∧
    ∀ id email, Registered s.log ⟨id, username, password, email⟩ →
      ∃ user, login pg sha256 call s.users username password = some user ∧
        user.id = id ∧ user.username = username ∧ user.email = email

/-- More than `n` characters. -/
def Exceeds (n : Nat) (s : Bytes) : Prop := ∃ cs, pg.chars s = some cs ∧ n < cs.length

/-- A registration longer than its columns, whose row the table takes. -/
def Overlong (s : History) : Op → Prop
  | .register call username password email =>
    username ≠ [] ∧ password ≠ [] ∧ call.works = true ∧
    (s.users.insert pg (s.users.serial + call.skipped + 1) (pg.quote username)
      (pg.quote (hashPassword sha256 call password)) (pg.quote email) call.now).isSome = true ∧
    (Exceeds pg 50 username ∨ Exceeds pg 100 email)
  | _ => False

/-! ## The rows are what is registered -/

/-- A row as the columns take an account. -/
structure Stores (P : Set Bytes) (row : Row) (a : Account) : Prop where
  id : row.id = a.id
  named : a.username ≠ [] ∧ a.password ≠ []
  clear : 0 ∉ a.username
  username : Users.varchar pg 50 a.username = some row.username
  known : a.password ∈ P
  password : row.password = hex (sha256 a.password)
  email : ∃ email, row.email = some email ∧ Users.varchar pg 100 a.email = some email
  createdAt : row.createdAt ≠ none

/-- The rows are the accounts registered, each as `R` relates a row to its account. -/
structure Logged (R : Row → Account → Prop) (s : History) : Prop where
  row : ∀ row ∈ s.users.rows, ∃ a, Registered s.log a ∧ R row a
  account : ∀ a, Registered s.log a → ∃ row ∈ s.users.rows, R row a

variable {pg sha256} {P : Set Bytes} {R : Row → Account → Prop} {s t : History}

theorem logged_new : Logged R new := by
  refine ⟨?_, fun a h => absurd h (not_registered_nil a)⟩
  intro row h
  cases h

/-- A successful registration adds a row that stores it. -/
theorem stores_insert {call : Call} {username password email : Bytes}
    (hp : (Op.register call username password email).Plain P)
    (h : (register pg sha256 call s.users username password email).1 = true) :
    ∃ row, (register pg sha256 call s.users username password email).2.rows = s.users.rows ++ [row] ∧
      Stores pg sha256 P row
        ⟨(register pg sha256 call s.users username password email).2.serial, username, password, email⟩ := by
  obtain ⟨h0u, h0e, hP, hd⟩ := hp
  obtain ⟨hu, hpw, -, -⟩ := register_true h
  obtain ⟨name, mail, hrows, hname, hmail, -⟩ := register_row h
  rw [Users.column_quote h0u] at hname
  rw [Users.column_quote h0e] at hmail
  refine ⟨_, hrows, rfl, ⟨hu, hpw⟩, h0u, hname, hP, ?_, ⟨mail, rfl, hmail⟩, (by intro h; cases h)⟩
  exact hashPassword_digested hd password

theorem step_register {call : Call} {username password email : Bytes}
    (hs : step pg sha256 s (.register call username password email) = some t) :
    ((register pg sha256 call s.users username password email).1 = false ∧ t = s) ∨
    ((register pg sha256 call s.users username password email).1 = true ∧
      t = ⟨(register pg sha256 call s.users username password email).2, s.log ++
        [.registered ⟨(register pg sha256 call s.users username password email).2.serial, username, password, email⟩]⟩) := by
  cases hr : (register pg sha256 call s.users username password email).1 with
  | false =>
    have hu := register_false hr
    left
    refine ⟨rfl, ?_⟩
    simp only [step] at hs
    split at hs
    · simp_all
    · rename_i users he
      rw [he] at hu
      have hu : users = s.users := hu
      cases hs
      rw [hu]
  | true =>
    right
    refine ⟨rfl, ?_⟩
    simp only [step] at hs
    split at hs
    · rename_i he
      cases hs
      rw [he]
    · simp_all

theorem step_deleteUser {call : Call} {id : Int} (hs : step pg sha256 s (.deleteUser call id) = some t) :
    t = s ∨ t = ⟨s.users.deleteById id, s.log ++ [.deleted id]⟩ := by
  rcases deleteUser_cases call s.users id with ⟨-, hd⟩ | ⟨-, hd⟩
  · simp only [step, hd] at hs
    exact .inl (Option.some.inj hs).symm
  · simp only [step, hd] at hs
    exact .inr (Option.some.inj hs).symm

/-- A registration adds an account and its row. -/
theorem logged_registered {users : Users} {row : Row} {a : Account} (h : Logged R s) (hrows : users.rows = s.users.rows ++ [row])
    (hrow : R row a) : Logged R ⟨users, s.log ++ [.registered a]⟩ := by
  refine ⟨?_, ?_⟩
  · intro r hm
    simp only [hrows, List.mem_append, List.mem_singleton] at hm
    rcases hm with hm | rfl
    · obtain ⟨b, hb, hrb⟩ := h.row r hm
      exact ⟨b, registered_concat.mpr (.inr ⟨hb, (by intro h; cases h)⟩), hrb⟩
    · exact ⟨a, registered_concat.mpr (.inl rfl), hrow⟩
  · intro b hb
    simp only [hrows, List.mem_append, List.mem_singleton]
    rcases registered_concat.mp hb with he | ⟨hb, -⟩
    · cases he
      exact ⟨row, .inr rfl, hrow⟩
    · obtain ⟨r, hm, hrb⟩ := h.account b hb
      exact ⟨r, .inl hm, hrb⟩

/-- A deletion takes the account of an id and the row of it. -/
theorem logged_deleted (hid : ∀ {row a}, R row a → row.id = a.id) (h : Logged R s) (id : Int) :
    Logged R ⟨s.users.deleteById id, s.log ++ [.deleted id]⟩ := by
  refine ⟨?_, ?_⟩
  · intro r hm
    simp only [Users.deleteById, List.mem_filter, decide_eq_true_eq] at hm
    obtain ⟨a, ha, hra⟩ := h.row r hm.1
    refine ⟨a, registered_concat.mpr (.inr ⟨ha, ?_⟩), hra⟩
    intro he
    cases he
    exact hm.2 (hid hra)
  · intro a ha
    rcases registered_concat.mp ha with he | ⟨ha, hne⟩
    · cases he
    · obtain ⟨r, hm, hra⟩ := h.account a ha
      refine ⟨r, List.mem_filter.mpr ⟨hm, ?_⟩, hra⟩
      simp only [ne_eq, decide_not, Bool.not_eq_eq_eq_not, Bool.not_true, decide_eq_false_iff_not]
      intro heq
      subst heq
      exact hne (by rw [hid hra])

/-- An operation keeps the rows what is registered, if a registration adds a row that is. -/
theorem logged_step {op : Op} (hid : ∀ {row a}, R row a → row.id = a.id)
    (hadd : ∀ call username password email, op = .register call username password email →
      (register pg sha256 call s.users username password email).1 = true →
      ∃ row, (register pg sha256 call s.users username password email).2.rows = s.users.rows ++ [row] ∧
        R row ⟨(register pg sha256 call s.users username password email).2.serial, username, password, email⟩)
    (h : Logged R s) (hs : step pg sha256 s op = some t) : Logged R t := by
  cases op with
  | register call username password email =>
    rcases step_register hs with ⟨-, rfl⟩ | ⟨hr, rfl⟩
    · exact h
    · obtain ⟨row, hrows, hrow⟩ := hadd call username password email rfl hr
      exact logged_registered h hrows hrow
  | deleteUser call id =>
    rcases step_deleteUser hs with rfl | rfl
    · exact h
    · exact logged_deleted hid h id
  | login _ _ _ | getUserById _ _ | getUserByUsername _ _ | getAllUsers _ _ _ =>
    cases hs
    exact h

/-- An operation with plain arguments keeps the rows as the columns take what is registered. -/
theorem stores_step {op : Op} (h : Logged (Stores pg sha256 P) s) (hp : op.Plain P) (hs : step pg sha256 s op = some t) :
    Logged (Stores pg sha256 P) t := by
  refine logged_step (fun hra => hra.id) ?_ h hs
  intro call username password email he hr
  subst he
  exact stores_insert hp hr

/-! ## What `Login` answers -/

theorem login_plain {call : Call} {username password : Bytes} (hw : call.works = true) (hd : call.digest = true)
    (h0 : 0 ∉ username) {user : User} :
    login pg sha256 call s.users username password = some user ↔
      username ≠ [] ∧ password ≠ [] ∧ (pg.chars username).isSome = true ∧
      ∃ row ∈ s.users.rows, row.username = username ∧ row.password = hex (sha256 password) ∧
        readUser row.toPublicRow = some user := by
  rw [login_some, Users.text_quote h0, hw, hashPassword_digested hd]
  constructor
  · intro hparts
    obtain ⟨hu, hp, -, row, hm, hname, hrow⟩ := hparts
    obtain ⟨hc, hname⟩ := Option.ite_none_right_eq_some.mp hname
    exact ⟨hu, hp, hc, row, hm, (Option.some.inj hname).symm, hrow⟩
  · intro hparts
    obtain ⟨hu, hp, hc, row, hm, rfl, hrow⟩ := hparts
    exact ⟨hu, hp, rfl, row, hm, if_pos hc, hrow⟩

/-- The columns hold what they were given when it is not too long. -/
theorem Stores.kept {row : Row} {a : Account} (h : Stores pg sha256 P row a) (hu : ¬ Exceeds pg 50 a.username)
    (he : ¬ Exceeds pg 100 a.email) : row.username = a.username ∧ row.email = some a.email := by
  obtain ⟨email, hemail, hv⟩ := h.email
  obtain ⟨us, hus, -⟩ := Users.varchar_cases h.username
  obtain ⟨es, hes, -⟩ := Users.varchar_cases hv
  refine ⟨Users.varchar_kept h.username hus ?_, ?_⟩
  · by_contra hlt
    exact hu ⟨us, hus, by omega⟩
  · rw [hemail, Users.varchar_kept hv hes]
    by_contra hlt
    exact he ⟨es, hes, by omega⟩

theorem Stores.readable {row : Row} {a : Account} (h : Stores pg sha256 P row a) :
    ∃ user, readUser row.toPublicRow = some user ∧ user.id = row.id ∧ user.username = row.username ∧
      row.email = some user.email := by
  obtain ⟨email, hemail, -⟩ := h.email
  obtain ⟨createdAt, hcreated⟩ := Option.ne_none_iff_exists'.mp h.createdAt
  refine ⟨⟨row.id, row.username, email, createdAt⟩, ?_, rfl, rfl, hemail⟩
  simp [readUser, hemail, hcreated]

/-- No account registered now exceeds its columns. -/
def Within (pg : Postgres) (s : History) : Prop :=
  ∀ a, Registered s.log a → ¬ Exceeds pg 50 a.username ∧ ¬ Exceeds pg 100 a.email

theorem faithful_of_within (hP : Set.InjOn sha256 P) (h : Logged (Stores pg sha256 P) s) (hw : Within pg s) :
    Faithful pg sha256 P s := by
  intro call username password hworks hd h0 hp
  refine ⟨?_, ?_⟩
  · intro user hl
    obtain ⟨-, -, -, row, hm, hrow, hpw, hread⟩ := (login_plain hworks hd h0).mp hl
    obtain ⟨a, ha, hstores⟩ := h.row row hm
    obtain ⟨hu, he⟩ := hstores.kept (hw a ha).1 (hw a ha).2
    obtain ⟨hid, hname, hemail⟩ := readUser_some hread
    have hpass : a.password = password := hP hstores.known hp (hex_inj (hstores.password.symm.trans hpw))
    have haccount : a = ⟨user.id, username, password, user.email⟩ := by
      have hmail : a.email = user.email := Option.some.inj (he.symm.trans hemail)
      obtain ⟨aid, aname, apass, amail⟩ := a
      simp only [Account.mk.injEq]
      exact ⟨hstores.id.symm.trans hid.symm, hu.symm.trans hrow, hpass, hmail⟩
    exact ⟨haccount ▸ ha, hname.trans hrow⟩
  · intro id email ha
    obtain ⟨row, hm, hstores⟩ := h.account _ ha
    obtain ⟨hu, he⟩ := hstores.kept (hw _ ha).1 (hw _ ha).2
    obtain ⟨user, hread, hid, hname, hemail⟩ := hstores.readable
    obtain ⟨cs, hcs, -⟩ := Users.varchar_cases hstores.username
    have hl := (login_plain hworks hd h0).mpr
      ⟨hstores.named.1, hstores.named.2, by rw [hcs]; rfl, row, hm, hu, hstores.password, hread⟩
    exact ⟨user, hl, hid.trans hstores.id, hname.trans hu, Option.some.inj (hemail.symm.trans he)⟩

theorem within_of_faithful (h : Logged (Stores pg sha256 P) s) (hf : Faithful pg sha256 P s) : Within pg s := by
  intro a ha
  obtain ⟨row, hm, hstores⟩ := h.account a ha
  obtain ⟨user, hl, -, -, hmail⟩ :=
    (hf ⟨true, false, true, 0, [], false⟩ a.username a.password rfl rfl hstores.clear hstores.known).2 a.id a.email ha
  obtain ⟨-, -, -, found, hfound, hname, -, hread⟩ := (login_plain rfl rfl hstores.clear).mp hl
  obtain ⟨b, -, hb⟩ := h.row found hfound
  obtain ⟨email, hemail, hv⟩ := hb.email
  have hown : email = a.email := by
    have := (readUser_some hread).2.2
    rw [show found.toPublicRow.email = some email from hemail, hmail] at this
    exact Option.some.inj this
  refine ⟨?_, ?_⟩
  · intro ⟨cs, hcs, hlt⟩
    obtain ⟨cs', hcs', hle⟩ := Users.varchar_fits hb.username
    rw [hname, hcs] at hcs'
    cases hcs'
    omega
  · intro ⟨cs, hcs, hlt⟩
    obtain ⟨cs', hcs', hle⟩ := Users.varchar_fits hv
    rw [hown, hcs] at hcs'
    cases hcs'
    omega

/-! ## Runs -/

theorem within_step {op : Op} (h : Within pg s) (hn : ¬ Overlong pg sha256 s op) (hs : step pg sha256 s op = some t) :
    Within pg t := by
  cases op with
  | register call username password email =>
    rcases step_register hs with ⟨-, rfl⟩ | ⟨hr, rfl⟩
    · exact h
    · intro a ha
      rcases registered_concat.mp ha with he | ⟨ha, -⟩
      · cases he
        obtain ⟨hu, hp, hw, hins⟩ := register_true hr
        rw [← not_or]
        intro hexceeds
        exact hn ⟨hu, hp, hw, by rw [hins]; rfl, hexceeds⟩
      · exact h a ha
  | deleteUser call id =>
    rcases step_deleteUser hs with rfl | rfl
    · exact h
    · intro a ha
      rcases registered_concat.mp ha with he | ⟨ha, -⟩
      · cases he
      · exact h a ha
  | login _ _ _ | getUserById _ _ | getUserByUsername _ _ | getAllUsers _ _ _ =>
    cases hs
    exact h

/-- A registration that goes through too long is registered so. -/
theorem overlong_registered {op : Op} (h : Overlong pg sha256 s op) : ∃ t, step pg sha256 s op = some t ∧ ¬ Within pg t := by
  cases op with
  | register call username password email =>
    obtain ⟨hu, hp, hw, hins, hexceeds⟩ := h
    have hr : (register pg sha256 call s.users username password email).1 = true := by
      obtain ⟨users, hins⟩ := Option.isSome_iff_exists.mp hins
      simp [register, hu, hp, hw, hins]
    obtain ⟨t, ht⟩ : ∃ t, step pg sha256 s (.register call username password email) = some t := by
      simp only [step]
      split <;> exact ⟨_, rfl⟩
    refine ⟨t, ht, ?_⟩
    rcases step_register ht with ⟨hf, -⟩ | ⟨-, rfl⟩
    · rw [hr] at hf
      cases hf
    · intro hwithin
      have := hwithin _ (registered_concat.mpr (.inl rfl))
      rcases hexceeds with hx | hx
      · exact this.1 hx
      · exact this.2 hx
  | _ => exact absurd h id

theorem refused_kept {op : Op} (hr : Refused pg sha256 s op) (hs : step pg sha256 s op = some t) : t.users = s.users := by
  cases op with
  | register call username password email =>
    rcases step_register hs with ⟨-, rfl⟩ | ⟨ht, -⟩
    · rfl
    · rw [show _ = false from hr] at ht
      cases ht
  | login _ _ _ =>
    cases hs
    rfl
  | _ => exact absurd hr id

theorem accounts_as_registered_iff (pg : Postgres) (sha256 : Bytes → List UInt8) (P : Set Bytes)
    (hP : Set.InjOn sha256 P) {ops : List Op} (hplain : ∀ op ∈ ops, op.Plain P) :
    ((∀ t, Machine.Visits (step pg sha256) new ops t →
        Faithful pg sha256 P t ∧ (t.users.rows.map (·.username)).Nodup) ∧
      ∀ t op u, Machine.Takes (step pg sha256) new ops t op → step pg sha256 t op = some u → Refused pg sha256 t op →
        u.users.rows = t.users.rows) ↔
    ∀ t op, Machine.Takes (step pg sha256) new ops t op → ¬ Overlong pg sha256 t op := by
  have hok : ∀ t op, Machine.Takes (step pg sha256) new ops t op → op.Plain P := by
    intro t op hparts
    obtain ⟨pre, post, he, -⟩ := hparts
    exact hplain op (by simp [he])
  have hlogged : ∀ {t}, Machine.Visits (step pg sha256) new ops t → Logged (Stores pg sha256 P) t :=
    Machine.visits_invariant stores_step logged_new hok
  constructor
  · intro hparts t op ht hover
    obtain ⟨hf, -⟩ := hparts
    obtain ⟨u, hu, hnot⟩ := overlong_registered hover
    have hv : Machine.Visits (step pg sha256) new ops u := by
      obtain ⟨pre, post, he, hpre⟩ := ht
      exact ⟨pre ++ [op], post, by simp [he], Machine.run_concat_some.mpr ⟨t, hpre, hu⟩⟩
    exact hnot (within_of_faithful (hlogged hv) (hf u hv).1)
  · intro hn
    refine ⟨?_, ?_⟩
    · intro t hv
      have hnew : Within pg new := fun a ha => absurd ha (not_registered_nil a)
      exact ⟨faithful_of_within hP (hlogged hv) (Machine.visits_invariant within_step hnew hn hv), t.users.names⟩
    · intro t op u _ hu hr
      rw [refused_kept hr hu]

/-- Fifty letters and a space. -/
def spaced : Bytes := List.replicate 50 97 ++ [32]

/-- SHA-256 of "p". -/
def digestOfP : List UInt8 :=
  [20, 141, 233, 197, 167, 164, 77, 25, 229, 108, 217, 174, 26, 85, 75, 246, 120, 71, 175, 176, 197, 143, 110, 18, 250,
    41, 172, 125, 223, 202, 153, 64]

def works : Call := ⟨true, false, true, 0, [], false⟩

/-- `Register` answers true, and `Login` with the same name and password finds nobody. -/
theorem trailing_space_lost : ∃ s,
    Machine.run (step .singleByte fun _ => digestOfP) new [.register works spaced (ascii "p") []] = some s ∧
    Registered s.log ⟨1, spaced, ascii "p", []⟩ ∧
    login .singleByte (fun _ => digestOfP) works s.users spaced (ascii "p") = none := by
  have hv : (Machine.run (step .singleByte fun _ => digestOfP) new [.register works spaced (ascii "p") []]).map
      (fun s => (s.log, login .singleByte (fun _ => digestOfP) works s.users spaced (ascii "p"))) =
        some ([.registered ⟨1, spaced, ascii "p", []⟩], none) := by decide
  obtain ⟨s, hs, hp⟩ := Option.map_eq_some_iff.mp hv
  simp only [Prod.mk.injEq] at hp
  exact ⟨s, hs, ⟨[], [], hp.1, List.not_mem_nil⟩, hp.2⟩

theorem trailing_space_overlong :
    ((∀ t, Machine.Visits (step .singleByte fun _ => digestOfP) new [.register works spaced (ascii "p") []] t →
        Faithful .singleByte (fun _ => digestOfP) {ascii "p"} t ∧ (t.users.rows.map (·.username)).Nodup) ∧
      ∀ t op u, Machine.Takes (step .singleByte fun _ => digestOfP) new [.register works spaced (ascii "p") []] t op →
        step .singleByte (fun _ => digestOfP) t op = some u → Refused .singleByte (fun _ => digestOfP) t op →
        u.users.rows = t.users.rows) ↔
    ∀ t op, Machine.Takes (step .singleByte fun _ => digestOfP) new [.register works spaced (ascii "p") []] t op →
      ¬ Overlong .singleByte (fun _ => digestOfP) t op :=
  accounts_as_registered_iff .singleByte _ {ascii "p"} (Set.injOn_singleton _ _) (by
    simp only [List.forall_mem_cons, List.not_mem_nil, false_implies, implies_true, and_true]
    exact ⟨by decide, by decide, rfl, rfl⟩)

end Accounts

end BreWebServer.Service
