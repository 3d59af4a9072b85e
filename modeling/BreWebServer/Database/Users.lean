/-
  BreWebServer.Database.Users — the table `users` of `schema.sql`, and the server it is in.

  `Postgres` is what the statements meet outside of this program: the characters of the
  database's encoding, libpqxx's `quote`, and what the server reads a literal as. The
  statements are those of `UserService`, over the rows a transaction sees; none is refused.
  `updated_at` is left out: no statement reads it.
-/

import BreWebServer.Cpp.Text

namespace BreWebServer.Database

open BreWebServer.Cpp

structure Postgres where
  /-- The characters of a text, if it is one in the database's encoding. -/
  chars : Bytes → Option (List Bytes)
  chars_flatten : ∀ {s cs}, chars s = some cs → cs.flatten = s
  chars_take : ∀ {s cs} (n : Nat), chars s = some cs → chars (cs.take n).flatten = some (cs.take n)
  quote : Bytes → Bytes
  literal : Bytes → Option Bytes
  literal_quote : ∀ {s}, 0 ∉ s → literal (quote s) = some s

/-- The columns that every query of the service asks for. -/
structure PublicRow where
  id : Int
  username : Bytes
  email : Option Bytes
  createdAt : Option Bytes
  deriving DecidableEq, Repr

structure Row extends PublicRow where
  password : Bytes
  deriving DecidableEq, Repr

/-- The table, with its `PRIMARY KEY` and its `UNIQUE` column, and the sequence behind the
    `SERIAL`. -/
structure Users where
  rows : List Row
  serial : Nat
  ids : (rows.map (·.id)).Nodup
  names : (rows.map (·.username)).Nodup

namespace Users

/-- The table as `schema.sql` creates it. -/
def empty : Users := ⟨[], 0, .nil, .nil⟩

variable (pg : Postgres)

/-! ## Texts -/

/-- A text literal as the server reads it, unless it is none of its encoding. -/
def text (literal : Bytes) : Option Bytes := (pg.literal literal).filter fun s => (pg.chars s).isSome

/-- What a `VARCHAR(n)` column takes of a text: too long a one is refused, unless all that
    is too much is spaces, which are cut off. -/
def varchar (n : Nat) (s : Bytes) : Option Bytes :=
  (pg.chars s).bind fun cs =>
    if cs.length ≤ n then some s
    else if (cs.drop n).all (· == [sp]) then some (cs.take n).flatten
    else none

/-- What a `VARCHAR(n)` column takes of a literal. -/
def column (n : Nat) (literal : Bytes) : Option Bytes := (text pg literal).bind (varchar pg n)

/-! ## Statements -/

/-- The largest value of a `SERIAL`. -/
def maxSerial : Nat := 2 ^ 31 - 1

/-- `INSERT INTO users (username, password, email)`, with the id from the sequence. -/
def insert (id : Nat) (username password email now : Bytes) (users : Users) : Option Users :=
  (text pg username).bind fun username => (text pg password).bind fun password => (text pg email).bind fun email =>
  (varchar pg 50 username).bind fun username => (varchar pg 255 password).bind fun password =>
  (varchar pg 100 email).bind fun email =>
    if h : id ≤ maxSerial ∧ (id : Int) ∉ users.rows.map (·.id) ∧ username ∉ users.rows.map (·.username) then
      some {
        rows := users.rows ++ [⟨⟨id, username, some email, some now⟩, password⟩]
        serial := id
        ids := by
          rw [List.map_append, List.nodup_append']
          exact ⟨users.ids, List.nodup_singleton _, by simpa using h.2.1⟩
        names := by
          rw [List.map_append, List.nodup_append']
          exact ⟨users.names, List.nodup_singleton _, by simpa using h.2.2⟩ }
    else none

/-- `SELECT … WHERE username =`, with every column. -/
def selectByUsername (username : Bytes) (users : Users) : Option (List Row) :=
  (text pg username).map fun username => users.rows.filter (·.username = username)

/-- `SELECT … WHERE id =`. -/
def selectById (id : Int) (users : Users) : List Row := users.rows.filter (·.id = id)

/-- `SELECT … ORDER BY id LIMIT … OFFSET …`. -/
def selectPage (limit offset : Int) (users : Users) : Option (List Row) :=
  if limit < 0 ∨ offset < 0 then none
  else some (((users.rows.mergeSort fun a b => a.id ≤ b.id).drop offset.toNat).take limit.toNat)

/-- `DELETE FROM users WHERE id =`. -/
def deleteById (id : Int) (users : Users) : Users where
  rows := users.rows.filter (·.id ≠ id)
  serial := users.serial
  ids := users.ids.sublist (List.filter_sublist.map _)
  names := users.names.sublist (List.filter_sublist.map _)

/-! ## What they do -/

variable {pg}

theorem text_quote {s : Bytes} (h : 0 ∉ s) : text pg (pg.quote s) = if (pg.chars s).isSome then some s else none := by
  simp only [text, pg.literal_quote h, Option.filter_some]

theorem text_quote_some {s t : Bytes} (h : 0 ∉ s) (ht : text pg (pg.quote s) = some t) : s = t := by
  rw [text_quote h] at ht
  split at ht
  · exact Option.some.inj ht
  · cases ht

theorem column_quote {n : Nat} {s : Bytes} (h : 0 ∉ s) : column pg n (pg.quote s) = varchar pg n s := by
  unfold column varchar
  rw [text_quote h]
  cases hcs : pg.chars s with
  | none => rfl
  | some cs => simp [hcs]

/-- A column takes a text as it is, or cut to its first `n` characters. -/
theorem varchar_cases {n : Nat} {s t : Bytes} (h : varchar pg n s = some t) :
    ∃ cs, pg.chars s = some cs ∧ ((cs.length ≤ n ∧ t = s) ∨
      (n < cs.length ∧ (∀ c ∈ cs.drop n, c = [sp]) ∧ t = (cs.take n).flatten)) := by
  obtain ⟨cs, hcs, h⟩ := Option.bind_eq_some_iff.mp h
  refine ⟨cs, hcs, ?_⟩
  split at h
  · cases h
    exact .inl ⟨‹_›, rfl⟩
  · rename_i hlen
    split at h
    · rename_i hblank
      cases h
      exact .inr ⟨by omega, by simpa using hblank, rfl⟩
    · cases h

/-- A text that a column takes as it is, fits. -/
theorem varchar_fits {n : Nat} {s t : Bytes} (h : varchar pg n s = some t) : ∃ cs, pg.chars t = some cs ∧ cs.length ≤ n := by
  obtain ⟨cs, hcs, ⟨hlen, rfl⟩ | ⟨hlen, -, rfl⟩⟩ := varchar_cases h
  · exact ⟨cs, hcs, hlen⟩
  · exact ⟨_, pg.chars_take n hcs, by simp⟩

theorem varchar_kept {n : Nat} {s t : Bytes} (h : varchar pg n s = some t) {cs : List Bytes} (hcs : pg.chars s = some cs)
    (hlen : cs.length ≤ n) : t = s := by
  obtain ⟨cs', hcs', ⟨-, ht⟩ | ⟨hlt, -, -⟩⟩ := varchar_cases h
  · exact ht
  · rw [hcs] at hcs'
    cases hcs'
    omega

/-- A text without spaces is never cut. -/
theorem varchar_unspaced {n : Nat} {s t : Bytes} (h : varchar pg n s = some t) (hs : sp ∉ s) : t = s := by
  obtain ⟨cs, hcs, ⟨-, ht⟩ | ⟨hlt, hblank, -⟩⟩ := varchar_cases h
  · exact ht
  · have hne : cs.drop n ≠ [] := by simp only [ne_eq, List.drop_eq_nil_iff]; omega
    obtain ⟨c, hc⟩ := List.exists_mem_of_ne_nil _ hne
    have hsp : sp ∈ cs.flatten := by
      rw [List.mem_flatten]
      exact ⟨c, List.mem_of_mem_drop hc, by rw [hblank c hc]; simp⟩
    rw [pg.chars_flatten hcs] at hsp
    exact absurd hsp hs

theorem insert_some {users users' : Users} {id : Nat} {username password email now : Bytes}
    (h : users.insert pg id username password email now = some users') :
    ∃ u p e u' p' e', text pg username = some u ∧ text pg password = some p ∧ text pg email = some e ∧
      varchar pg 50 u = some u' ∧ varchar pg 255 p = some p' ∧ varchar pg 100 e = some e' ∧
      (id : Int) ∉ users.rows.map (·.id) ∧ u' ∉ users.rows.map (·.username) ∧
      users'.rows = users.rows ++ [⟨⟨id, u', some e', some now⟩, p'⟩] ∧ users'.serial = id := by
  obtain ⟨u, hu, h⟩ := Option.bind_eq_some_iff.mp h
  obtain ⟨p, hp, h⟩ := Option.bind_eq_some_iff.mp h
  obtain ⟨e, he, h⟩ := Option.bind_eq_some_iff.mp h
  obtain ⟨u', hu', h⟩ := Option.bind_eq_some_iff.mp h
  obtain ⟨p', hp', h⟩ := Option.bind_eq_some_iff.mp h
  obtain ⟨e', he', h⟩ := Option.bind_eq_some_iff.mp h
  split at h
  · rename_i hfree
    cases h
    exact ⟨u, p, e, u', p', e', hu, hp, he, hu', hp', he', hfree.2.1, hfree.2.2, rfl, rfl⟩
  · cases h

/-- An insert is refused for a value that its column does not take, for its id, or for its
    name. -/
theorem insert_eq_none_iff {users : Users} {id : Nat} {username password email now : Bytes} :
    users.insert pg id username password email now = none ↔
      column pg 50 username = none ∨ column pg 255 password = none ∨ column pg 100 email = none ∨ maxSerial < id ∨
      (∃ row ∈ users.rows, row.id = id) ∨ ∃ row ∈ users.rows, column pg 50 username = some row.username := by
  unfold insert column
  rcases text pg username with _ | u
  · simp
  rcases text pg password with _ | p
  · simp
  rcases text pg email with _ | e
  · simp
  simp only [Option.bind_some]
  rcases varchar pg 50 u with _ | u'
  · simp
  rcases varchar pg 255 p with _ | p'
  · simp
  rcases varchar pg 100 e with _ | e'
  · simp
  simp only [Option.bind_some, dite_eq_right_iff, reduceCtorEq, imp_false, not_and_or, false_or, not_not, List.mem_map,
    Option.some.injEq, not_le, @eq_comm _ u']

/-- Rows of one name, or of one id, are one row. -/
theorem eq_of_username {users : Users} {a b : Row} (ha : a ∈ users.rows) (hb : b ∈ users.rows)
    (h : a.username = b.username) : a = b :=
  List.inj_on_of_nodup_map users.names ha hb h

theorem eq_of_id {users : Users} {a b : Row} (ha : a ∈ users.rows) (hb : b ∈ users.rows) (h : a.id = b.id) : a = b :=
  List.inj_on_of_nodup_map users.ids ha hb h

/-- What a query by name finds first is the one row of that name. -/
theorem filter_username {users : Users} {row : Row} {name : Bytes} (hm : row ∈ users.rows) (hname : row.username = name) :
    ∃ rest, users.rows.filter (·.username = name) = row :: rest := by
  have hrow : row ∈ users.rows.filter (·.username = name) := List.mem_filter.mpr ⟨hm, by simpa using hname⟩
  cases hf : users.rows.filter (·.username = name) with
  | nil =>
    rw [hf] at hrow
    cases hrow
  | cons first rest =>
    have hfirst : first ∈ users.rows.filter (·.username = name) := by rw [hf]; exact List.mem_cons_self
    simp only [List.mem_filter, decide_eq_true_eq] at hfirst
    rw [eq_of_username hfirst.1 hm (hfirst.2.trans hname.symm)]
    exact ⟨rest, rfl⟩

/-- The same of a query by id. -/
theorem filter_id {users : Users} {row : Row} {id : Int} (hm : row ∈ users.rows) (hid : row.id = id) :
    ∃ rest, users.selectById id = row :: rest := by
  have hrow : row ∈ users.selectById id := List.mem_filter.mpr ⟨hm, by simpa using hid⟩
  cases hf : users.selectById id with
  | nil =>
    rw [hf] at hrow
    cases hrow
  | cons first rest =>
    have hfirst : first ∈ users.selectById id := by rw [hf]; exact List.mem_cons_self
    simp only [selectById, List.mem_filter, decide_eq_true_eq] at hfirst
    rw [eq_of_id hfirst.1 hm (hfirst.2.trans hid.symm)]
    exact ⟨rest, rfl⟩

/-- A page is in the order of ids. -/
theorem selectPage_ordered {users : Users} {limit offset : Int} {rows : List Row} (h : users.selectPage limit offset = some rows) :
    (rows.map (·.id)).Pairwise (· < ·) := by
  unfold selectPage at h
  split at h
  · cases h
  · have hsorted : ((users.rows.mergeSort fun a b => a.id ≤ b.id).map (·.id)).Pairwise (· ≤ ·) := by
      rw [List.pairwise_map]
      refine (List.pairwise_mergeSort ?_ ?_ users.rows).imp (fun h => by simpa using h)
      · intro a b c hab hbc
        simp only [decide_eq_true_eq] at hab hbc ⊢
        omega
      · intro a b
        simp only [Bool.or_eq_true, decide_eq_true_eq]
        omega
    have hnodup : ((users.rows.mergeSort fun a b => a.id ≤ b.id).map (·.id)).Nodup :=
      ((List.mergeSort_perm users.rows _).map fun row : Row => row.id).nodup_iff.mpr users.ids
    have hstrict : ((users.rows.mergeSort fun a b => a.id ≤ b.id).map (·.id)).Pairwise (· < ·) :=
      (hsorted.and hnodup).imp fun hboth => by
        obtain ⟨hle, hne⟩ := hboth
        omega
    rw [← Option.some.inj h]
    exact hstrict.sublist (((List.take_sublist _ _).trans (List.drop_sublist _ _)).map fun row : Row => row.id)

end Users

/-! ## A server with a single-byte encoding -/

namespace Postgres

/-- The inside of a literal: quotes are doubled. -/
def escape (s : Bytes) : Bytes := s.flatMap fun c => if c = 39 then [39, 39] else [c]

/-- Reads the inside of a literal, to its closing quote. -/
def unescape : Bytes → Option Bytes
  | [] => none
  | [c] => if c = 39 then some [] else none
  | c :: d :: rest =>
    if c = 39 then if d = 39 then (unescape rest).map (39 :: ·) else none
    else (unescape (d :: rest)).map (c :: ·)

theorem unescape_escape (s : Bytes) : unescape (escape s ++ [39]) = some s := by
  induction s with
  | nil => rfl
  | cons c s ih =>
    by_cases hc : c = 39
    · subst hc
      have : escape (39 :: s) ++ [39] = 39 :: 39 :: (escape s ++ [39]) := rfl
      rw [this, unescape, if_pos rfl, if_pos rfl, ih]
      rfl
    · have : escape (c :: s) ++ [39] = c :: (escape s ++ [39]) := by simp [escape, hc]
      rw [this]
      obtain ⟨d, rest, hd⟩ := List.exists_cons_of_ne_nil (show escape s ++ [39] ≠ [] by simp)
      rw [hd] at ih ⊢
      rw [unescape, if_neg hc, ih]
      rfl

def singleByte : Postgres where
  chars s := some (s.map ([·]))
  chars_flatten := by
    intro s cs h
    cases h
    induction s with
    | nil => rfl
    | cons c s ih => simpa using ih
  chars_take := by
    intro s cs n h
    cases h
    rw [← List.map_take]
    congr 1
    generalize s.take n = s
    induction s with
    | nil => rfl
    | cons c s ih => simpa using ih
  quote s := 39 :: (escape s ++ [39])
  literal s := if s.head? = some 39 then unescape s.tail else none
  literal_quote := fun {s} _ => unescape_escape s

end Postgres

end BreWebServer.Database
