/-
  BreWebServer.Service.FailClosed — whom `Login` lets in when digests fail.

  `_hashPassword` reports a failure as the empty text, and `Register` stores what it gets.
  So a row holds the digest of its account's password or nothing (`Left`), and a login
  compares the digest of its own password, or nothing, with that.

  Proved: in a run from the empty table every user a login returns registered a password of
  the same SHA-256, exactly when no login whose digest fails is for an account whose row
  holds nothing and whose password has another SHA-256 (`fails_closed_iff`). Two failures
  are needed: where the registrations compute theirs, no row is left blank
  (`digested_closed`). With both, any password will do (`two_failures_let_in`).
-/

import BreWebServer.Service.Accounts

namespace BreWebServer.Service.Accounts

open BreWebServer.Cpp BreWebServer.Database BreWebServer.Lib BreWebServer.Service.UserTable

variable (pg : Postgres) (sha256 : Bytes → List UInt8)

/-! ## Accounts of a name -/

/-- `username` selects the row that took `a`'s name. -/
def Named (a : Account) (username : Bytes) : Prop :=
  ∃ name, Users.column pg 50 (pg.quote a.username) = some name ∧ Users.text pg (pg.quote username) = some name

/-- A login returns a user only by the password the user registered, as far as SHA-256 tells. -/
def FailsClosed (s : History) : Op → Prop
  | .login call username password => ∀ user, login pg sha256 call s.users username password = some user →
      ∃ a, Registered s.log a ∧ a.id = user.id ∧ Named pg a username ∧ sha256 password = sha256 a.password
  | _ => True

/-- The row of `a` holds no digest. -/
def Blank (s : History) (a : Account) : Prop := ∃ row ∈ s.users.rows, row.id = a.id ∧ row.password = []

/-- A login whose digest fails, for an account that a failed digest left blank, with a
    password of another SHA-256. -/
def Undigested (s : History) : Op → Prop
  | .login call username password =>
    username ≠ [] ∧ password ≠ [] ∧ call.works = true ∧ call.digest = false ∧
    ∃ a, Registered s.log a ∧ Named pg a username ∧ Blank s a ∧ sha256 a.password ≠ sha256 password
  | _ => False

/-- A row as a registration leaves it, whatever its digest came to. -/
structure Left (row : Row) (a : Account) : Prop where
  id : row.id = a.id
  username : Users.column pg 50 (pg.quote a.username) = some row.username
  password : ∃ call, row.password = hashPassword sha256 call a.password
  readable : row.email ≠ none ∧ row.createdAt ≠ none

/-- The accounts registered now are told apart by their ids. -/
def Distinct (s : History) : Prop := ∀ a b, Registered s.log a → Registered s.log b → a.id = b.id → a = b

variable {pg sha256} {s t : History}

/-! ## What every run keeps -/

theorem left_insert {call : Call} {username password email : Bytes}
    (h : (register pg sha256 call s.users username password email).1 = true) :
    ∃ row, (register pg sha256 call s.users username password email).2.rows = s.users.rows ++ [row] ∧
      Left pg sha256 row
        ⟨(register pg sha256 call s.users username password email).2.serial, username, password, email⟩ := by
  obtain ⟨name, mail, hrows, hname, -, -⟩ := register_row h
  refine ⟨_, hrows, rfl, hname, ⟨call, rfl⟩, ?_, ?_⟩
  · intro h
    cases h
  · intro h
    cases h

theorem left_step {op : Op} (h : Logged (Left pg sha256) s) (hs : step pg sha256 s op = some t) :
    Logged (Left pg sha256) t := by
  refine logged_step (fun hra => hra.id) ?_ h hs
  intro call username password email _ hr
  exact left_insert hr

/-- A new account has an id that no row has, so none of an account registered before. -/
theorem distinct_step {op : Op} (hl : Logged (Left pg sha256) s) (h : Distinct s) (hs : step pg sha256 s op = some t) :
    Distinct t := by
  cases op with
  | register call username password email =>
    rcases step_register hs with ⟨-, rfl⟩ | ⟨hr, rfl⟩
    · exact h
    · obtain ⟨-, -, -, -, -, hfresh⟩ := register_row hr
      have hnew : ∀ a, Registered s.log a →
          a.id ≠ (register pg sha256 call s.users username password email).2.serial := by
        intro a ha he
        obtain ⟨row, hm, hra⟩ := hl.account a ha
        exact hfresh row hm (hra.id.trans he)
      intro a b ha hb hid
      rcases registered_concat.mp ha with ha | ⟨ha, -⟩
      · rcases registered_concat.mp hb with hb | ⟨hb, -⟩
        · cases ha
          cases hb
          rfl
        · cases ha
          exact absurd hid.symm (hnew b hb)
      · rcases registered_concat.mp hb with hb | ⟨hb, -⟩
        · cases hb
          exact absurd hid (hnew a ha)
        · exact h a b ha hb hid
  | deleteUser call id =>
    rcases step_deleteUser hs with rfl | rfl
    · exact h
    · intro a b ha hb hid
      rcases registered_concat.mp ha with ha | ⟨ha, -⟩
      · cases ha
      · rcases registered_concat.mp hb with hb | ⟨hb, -⟩
        · cases hb
        · exact h a b ha hb hid
  | login _ _ _ | getUserById _ _ | getUserByUsername _ _ | getAllUsers _ _ _ =>
    cases hs
    exact h

/-- What holds in every state of a run. -/
def Sound (pg : Postgres) (sha256 : Bytes → List UInt8) (s : History) : Prop := Logged (Left pg sha256) s ∧ Distinct s

theorem sound_new : Sound pg sha256 new := ⟨logged_new, fun a _ ha _ _ => absurd ha (not_registered_nil a)⟩

theorem sound_takes {ops : List Op} {op : Op} (h : Machine.Takes (step pg sha256) new ops t op) : Sound pg sha256 t := by
  obtain ⟨pre, post, -, hpre⟩ := h
  refine Machine.run_invariant ?_ pre sound_new hpre
  intro s op t h hs
  exact ⟨left_step h.1 hs, distinct_step h.1 h.2 hs⟩

/-! ## One login -/

/-- A digest computed now meets only a digest computed then, and of the same SHA-256. -/
theorem same_of_digested (hsha : ∀ password, (sha256 password).length = 32) {call before : Call}
    {password registered : Bytes} (hd : call.digest = true)
    (h : hashPassword sha256 before registered = hashPassword sha256 call password) :
    sha256 password = sha256 registered := by
  rw [hashPassword_digested hd] at h
  by_cases hb : before.digest = true
  · rw [hashPassword_digested hb] at h
    exact (hex_inj h).symm
  · rw [hashPassword_failed (by simpa using hb)] at h
    exact absurd h.symm (hex_ne_nil (hsha password))

theorem closed_iff_digested (hsha : ∀ password, (sha256 password).length = 32) {op : Op} (h : Sound pg sha256 s) :
    FailsClosed pg sha256 s op ↔ ¬ Undigested pg sha256 s op := by
  obtain ⟨hl, hdistinct⟩ := h
  cases op with
  | login call username password =>
    refine ⟨?_, ?_⟩
    · intro hclosed hparts
      obtain ⟨hu, hp, hw, hd, a, ha, ⟨name, hcolumn, htext⟩, ⟨row, hm, hid, hblank⟩, hne⟩ := hparts
      obtain ⟨row', hm', hleft⟩ := hl.account a ha
      obtain rfl := Users.eq_of_id hm hm' (hid.trans hleft.id.symm)
      have hname : row.username = name := Option.some.inj (hleft.username.symm.trans hcolumn)
      obtain ⟨user, hread⟩ := Option.ne_none_iff_exists'.mp (mt readUser_eq_none_iff.mp (not_or.mpr hleft.readable))
      have hin : login pg sha256 call s.users username password = some user :=
        login_some.mpr ⟨hu, hp, hw, row, hm, by rw [htext, hname], by rw [hblank, hashPassword_failed hd], hread⟩
      obtain ⟨b, hb, hbid, -, hsame⟩ := hclosed user hin
      obtain rfl := hdistinct b a hb ha (hbid.trans ((readUser_some hread).1.trans hid))
      exact hne hsame.symm
    · intro hn user hin
      obtain ⟨hu, hp, hw, row, hm, htext, hpassword, hread⟩ := login_some.mp hin
      obtain ⟨a, ha, hleft⟩ := hl.row row hm
      obtain ⟨before, hbefore⟩ := hleft.password
      have hnamed : Named pg a username := ⟨row.username, hleft.username, htext⟩
      refine ⟨a, ha, hleft.id.symm.trans (readUser_some hread).1.symm, hnamed, ?_⟩
      by_cases hd : call.digest = true
      · exact same_of_digested hsha hd (hbefore.symm.trans hpassword)
      · have hd : call.digest = false := by simpa using hd
        have hblank : row.password = [] := hpassword.trans (hashPassword_failed hd password)
        by_contra hne
        exact hn ⟨hu, hp, hw, hd, a, ha, hnamed, ⟨row, hm, hleft.id, hblank⟩, fun he => hne he.symm⟩
  | _ => exact iff_of_true trivial id

/-! ## Runs -/

/-- Registrations that compute their digests leave no row blank. -/
theorem digested_step (hsha : ∀ password, (sha256 password).length = 32) {op : Op}
    (h : ∀ row ∈ s.users.rows, row.password ≠ [])
    (hd : ∀ call username password email, op = .register call username password email → call.digest = true)
    (hs : step pg sha256 s op = some t) : ∀ row ∈ t.users.rows, row.password ≠ [] := by
  cases op with
  | register call username password email =>
    rcases step_register hs with ⟨-, rfl⟩ | ⟨hr, rfl⟩
    · exact h
    · obtain ⟨name, mail, hrows, -, -, -⟩ := register_row hr
      intro row hm
      simp only [hrows, List.mem_append, List.mem_singleton] at hm
      rcases hm with hm | rfl
      · exact h row hm
      · show hashPassword sha256 call password ≠ []
        rw [hashPassword_digested (hd call username password email rfl)]
        exact hex_ne_nil (hsha password)
  | deleteUser call id =>
    rcases step_deleteUser hs with rfl | rfl
    · exact h
    · intro row hm
      exact h row (List.mem_filter.mp hm).1
  | login _ _ _ | getUserById _ _ | getUserByUsername _ _ | getAllUsers _ _ _ =>
    cases hs
    exact h

/-- Where every registration computes its digest, failures of logins let nobody in. -/
theorem digested_closed (hsha : ∀ password, (sha256 password).length = 32) {ops : List Op}
    (hd : ∀ call username password email, .register call username password email ∈ ops → call.digest = true)
    {op : Op} (ht : Machine.Takes (step pg sha256) new ops t op) : FailsClosed pg sha256 t op := by
  refine (closed_iff_digested hsha (sound_takes ht)).mpr ?_
  obtain ⟨pre, post, rfl, hpre⟩ := ht
  have hpassword : ∀ row ∈ t.users.rows, row.password ≠ [] := by
    refine Machine.run_invariant_on (digested_step hsha) pre ?_ ?_ hpre
    · intro op hop call username password email he
      exact hd call username password email (by rw [← he]; exact List.mem_append_left _ hop)
    · intro row hm
      cases hm
  intro hundigested
  cases op with
  | login call username password =>
    obtain ⟨-, -, -, -, a, -, -, ⟨row, hm, -, hblank⟩, -⟩ := hundigested
    exact hpassword row hm hblank
  | _ => exact hundigested

theorem fails_closed_iff (pg : Postgres) (sha256 : Bytes → List UInt8) (hsha : ∀ password, (sha256 password).length = 32)
    (ops : List Op) :
    (∀ t op, Machine.Takes (step pg sha256) new ops t op → FailsClosed pg sha256 t op) ↔
    ∀ t op, Machine.Takes (step pg sha256) new ops t op → ¬ Undigested pg sha256 t op := by
  refine ⟨?_, ?_⟩
  · intro h t op ht
    exact (closed_iff_digested hsha (sound_takes ht)).mp (h t op ht)
  · intro h t op ht
    exact (closed_iff_digested hsha (sound_takes ht)).mpr (h t op ht)

/-- SHA-256 of "p" and of "q". -/
def digestOf (password : Bytes) : List UInt8 :=
  if password = ascii "q" then
    [142, 53, 194, 205, 59, 246, 100, 27, 219, 14, 32, 80, 183, 105, 50, 203, 178, 230, 3, 74, 13, 218, 204, 29, 155,
      234, 130, 166, 186, 87, 247, 207]
  else digestOfP

/-- The server works, and OpenSSL does not. -/
def undigested : Call := { works with digest := false }

/-- "u" registers with "p". -/
def registers (call : Call) : Op := .register call (ascii "u") (ascii "p") []

/-- "u" is registered with "p" and let in with "q", both digests failing. -/
theorem two_failures_let_in : ∃ s op,
    Machine.Takes (step .singleByte digestOf) new [registers undigested, .login undigested (ascii "u") (ascii "q")] s op ∧
    ¬ FailsClosed .singleByte digestOf s op := by
  have hv : (Machine.run (step .singleByte digestOf) new [registers undigested]).map
      (fun s => (s.log, login .singleByte digestOf undigested s.users (ascii "u") (ascii "q"))) =
        some ([.registered ⟨1, ascii "u", ascii "p", []⟩], some ⟨1, ascii "u", [], []⟩) := by decide
  obtain ⟨s, hs, hp⟩ := Option.map_eq_some_iff.mp hv
  simp only [Prod.mk.injEq] at hp
  refine ⟨s, .login undigested (ascii "u") (ascii "q"), ⟨[registers undigested], [], rfl, hs⟩, ?_⟩
  intro hclosed
  obtain ⟨a, ha, -, -, hsame⟩ := hclosed _ hp.2
  rw [hp.1] at ha
  have ha : Registered ([] ++ [.registered ⟨1, ascii "u", ascii "p", []⟩]) a := ha
  rcases registered_concat.mp ha with he | ⟨ha, -⟩
  · cases he
    exact absurd hsame (by decide)
  · exact not_registered_nil a ha

theorem two_failures_undigested :
    (∀ t op, Machine.Takes (step .singleByte digestOf) new
        [registers undigested, .login undigested (ascii "u") (ascii "q")] t op → FailsClosed .singleByte digestOf t op) ↔
    ∀ t op, Machine.Takes (step .singleByte digestOf) new
        [registers undigested, .login undigested (ascii "u") (ascii "q")] t op → ¬ Undigested .singleByte digestOf t op :=
  fails_closed_iff .singleByte digestOf (fun password => by unfold digestOf; split <;> rfl) _

end BreWebServer.Service.Accounts
