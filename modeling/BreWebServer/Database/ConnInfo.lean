/-
  BreWebServer.Database.ConnInfo — `WebServer::InitDatabase`, and what libpq reads of the
  connection string it builds.

  The string is handed over as a C string and read as `keyword=value` settings, values with
  blanks, or none, in quotes. `InitDatabase` puts the configured values in as they are: so
  what is read is the configuration exactly when each of them can stand bare
  (`carried_iff`).

  The configuration file's reader is a parameter (`IniSection`). An empty password is not
  put into the string; not giving one and giving an empty one are the same.
-/

import BreWebServer.Cpp.Filesystem
import BreWebServer.Database.Pool
import BreWebServer.Lib.Settings

namespace BreWebServer.Database

open BreWebServer.Cpp BreWebServer.Lib

/-! ## Building the connection string -/

/-- A section of the configuration file: what is configured under a key, or a default. -/
structure IniSection where
  getStr : Bytes → Bytes → Bytes
  getInt : Bytes → Int → Int

structure DbConfig where
  dbHost : Bytes
  dbPort : Bytes
  dbName : Bytes
  dbUser : Bytes
  dbPassword : Bytes
  deriving DecidableEq, Repr

namespace DbConfig

def load (ini : IniSection) : DbConfig where
  dbHost := ini.getStr (ascii "db_host") (ascii "localhost")
  dbPort := ini.getStr (ascii "db_port") (ascii "5432")
  dbName := ini.getStr (ascii "db_name") []
  dbUser := ini.getStr (ascii "db_user") []
  dbPassword := ini.getStr (ascii "db_password") []

variable (c : DbConfig)

def configured : Prop := c.dbName ≠ [] ∧ c.dbUser ≠ []

instance : Decidable c.configured := inferInstanceAs (Decidable (_ ∧ _))

def connInfo : Bytes :=
  let connInfo := ascii "host=" ++ c.dbHost ++ ascii " port=" ++ c.dbPort ++ ascii " dbname=" ++ c.dbName ++
    ascii " user=" ++ c.dbUser
  if c.dbPassword ≠ [] then connInfo ++ ascii " password=" ++ c.dbPassword else connInfo

end DbConfig

/-- An `int` as a `size_t`. -/
def dbPoolSize (ini : IniSection) : Nat := (ini.getInt (ascii "db_pool_size") 8 % 2 ^ 64).toNat

/-- `InitDatabase`; what `Init` throws is caught. -/
def initDatabase (postgres : Bool) (ini : IniSection) (opens : Nat → Bool) (p : PostgrePool) : PostgrePool :=
  if postgres ∧ (DbConfig.load ini).configured then (p.init (DbConfig.load ini).connInfo (dbPoolSize ini) opens).2
  else p

theorem openSlots_connInfo {opens : Nat → Bool} {connInfo : Bytes} (slots : List Nat) : ∀ {p : PostgrePool},
    p.connInfo = connInfo → (∀ c ∈ p.pool, c.connInfo = connInfo) →
    ∀ c ∈ (PostgrePool.openSlots opens slots p).2.pool, c.connInfo = connInfo := by
  induction slots with
  | nil => exact fun _ hpool => hpool
  | cons slot slots ih =>
    intro p hp hpool
    simp only [PostgrePool.openSlots]
    split
    · refine ih hp ?_
      intro c hc
      rcases List.mem_append.mp hc with hc | hc
      · exact hpool c hc
      · rw [List.mem_singleton.mp hc]
        exact hp
    · exact hpool

/-- The connections are opened with the string that `InitDatabase` builds. -/
theorem initDatabase_connections {ini : IniSection} (hc : (DbConfig.load ini).configured) (hsize : dbPoolSize ini ≠ 0)
    (opens : Nat → Bool) (p : PostgrePool) :
    ∀ c ∈ (initDatabase true ini opens p).pool, c.connInfo = (DbConfig.load ini).connInfo := by
  rw [initDatabase, if_pos ⟨rfl, hc⟩, PostgrePool.init, if_neg hsize]
  exact openSlots_connInfo _ rfl (by simp)

/-! ## Reading it -/

/-- The symbols of libpq's connection strings. -/
def libpq : Grammar UInt8 where
  blank := isSpace
  equals := 61
  quote := 39
  escape := 92
  equals_solid := by decide

/-- The settings libpq reads of a `std::string`. -/
def readConnInfo (text : Bytes) : Option (Settings UInt8) := libpq.read (cStr text)

namespace DbConfig

variable (c : DbConfig)

def keywords : List Bytes := [ascii "host", ascii "port", ascii "dbname", ascii "user", ascii "password"]

/-- The settings are those of the configuration and no other; a password not given is an
    empty one. -/
structure Carried (settings : Settings UInt8) : Prop where
  host : Grammar.setting settings (ascii "host") = some c.dbHost
  port : Grammar.setting settings (ascii "port") = some c.dbPort
  dbname : Grammar.setting settings (ascii "dbname") = some c.dbName
  user : Grammar.setting settings (ascii "user") = some c.dbUser
  password : (Grammar.setting settings (ascii "password")).getD [] = c.dbPassword
  other : ∀ k, k ∉ keywords → Grammar.setting settings k = none

/-- A value that needs no quotes. -/
def Bare (v : Bytes) : Prop := v ≠ [] ∧ (∀ x ∈ v, isSpace x = false ∧ x ≠ 92 ∧ x ≠ 0) ∧ v.head? ≠ some 39

instance (v : Bytes) : Decidable (Bare v) := inferInstanceAs (Decidable (_ ∧ _ ∧ _))

/-- No configured value needs quotes. -/
def NeedsNoQuotes : Prop :=
  Bare c.dbHost ∧ Bare c.dbPort ∧ Bare c.dbName ∧ Bare c.dbUser ∧ (c.dbPassword = [] ∨ Bare c.dbPassword)

instance : Decidable c.NeedsNoQuotes := inferInstanceAs (Decidable (_ ∧ _ ∧ _ ∧ _ ∧ _))

/-- The settings `connInfo` puts together. -/
def settings : Settings UInt8 :=
  [(ascii "host", c.dbHost), (ascii "port", c.dbPort), (ascii "dbname", c.dbName), (ascii "user", c.dbUser)] ++
    if c.dbPassword ≠ [] then [(ascii "password", c.dbPassword)] else []

theorem connInfo_eq : c.connInfo = libpq.render sp c.settings := by
  unfold connInfo settings
  split
  · simp [Grammar.render, libpq, ascii, sp]
  · simp [Grammar.render, libpq, ascii, sp]

variable {c}

theorem forall_settings {P : Bytes × Bytes → Prop} : (∀ p ∈ c.settings, P p) ↔
    P (ascii "host", c.dbHost) ∧ P (ascii "port", c.dbPort) ∧ P (ascii "dbname", c.dbName) ∧
      P (ascii "user", c.dbUser) ∧ (c.dbPassword ≠ [] → P (ascii "password", c.dbPassword)) := by
  unfold settings
  split
  · simp [*]
  · simp [*]

theorem settings_keys : (c.settings.map (·.1)).Nodup := by
  unfold settings
  split
  · exact show [ascii "host", ascii "port", ascii "dbname", ascii "user", ascii "password"].Nodup by decide
  · exact show [ascii "host", ascii "port", ascii "dbname", ascii "user"].Nodup by decide

theorem settings_keywords : ∀ p ∈ c.settings, p.1 ∈ keywords := by
  rw [forall_settings]
  simp [keywords]

theorem keywords_plain : ∀ k ∈ keywords, ∀ x ∈ k, isSpace x = false ∧ x ≠ 61 ∧ x ≠ 0 := by
  have hall : keywords.all (fun k => k.all fun x => !isSpace x && x != 61 && x != 0) = true := by decide
  intro k hk x hx
  have := List.all_eq_true.mp (List.all_eq_true.mp hall k hk) x hx
  simpa [and_assoc] using this

theorem settings_plain : ∀ p ∈ c.settings, libpq.Plain p.1 := by
  intro p hp x hx
  obtain ⟨hspace, hequals, -⟩ := keywords_plain p.1 (settings_keywords p hp) x hx
  exact ⟨hspace, hequals⟩

/-- The last value put in is there: the user's name, or the password. -/
theorem settings_last (huser : c.dbUser ≠ []) : ∀ p ∈ c.settings.getLast?, p.2 ≠ [] := by
  unfold settings
  split
  · simpa using ‹c.dbPassword ≠ []›
  · simpa using huser

theorem bare_iff {v : Bytes} : Bare v ↔ (libpq.Solid v ∧ v ≠ []) ∧ 0 ∉ v := by
  constructor
  · intro h
    exact ⟨⟨⟨fun x hx => ⟨(h.2.1 x hx).1, (h.2.1 x hx).2.1⟩, h.2.2⟩, h.1⟩, fun h0 => (h.2.1 0 h0).2.2 rfl⟩
  · intro h
    obtain ⟨⟨hsolid, hne⟩, h0⟩ := h
    refine ⟨hne, ?_, hsolid.2⟩
    intro x hx
    refine ⟨(hsolid.1 x hx).1, (hsolid.1 x hx).2, ?_⟩
    rintro rfl
    exact h0 hx

theorem needsNoQuotes_iff :
    c.NeedsNoQuotes ↔ ∀ p ∈ c.settings, (libpq.Solid p.2 ∧ p.2 ≠ []) ∧ 0 ∉ p.2 := by
  have hpassword : c.dbPassword = [] ∨ Bare c.dbPassword ↔ (c.dbPassword ≠ [] → Bare c.dbPassword) := by
    rw [← or_iff_not_imp_left]
  simp only [forall_settings, ← bare_iff, ← hpassword]
  rfl

/-- The settings put in are those of the configuration. -/
theorem carried_settings : Carried c c.settings := by
  have hself : ∀ p ∈ c.settings, Grammar.setting c.settings p.1 = some p.2 :=
    fun p hp => Grammar.setting_self settings_keys hp
  have hnone : ∀ k, (∀ p ∈ c.settings, p.1 ≠ k) → Grammar.setting c.settings k = none := by
    intro k hk
    rw [Grammar.setting, List.lookup_eq_none_iff]
    intro p hp
    simpa using (hk p (List.mem_reverse.mp hp)).symm
  obtain ⟨hhost, hport, hdbname, huser, hpassword⟩ := forall_settings.mp hself
  refine ⟨hhost, hport, hdbname, huser, ?_, ?_⟩
  · by_cases hp : c.dbPassword = []
    · rw [hnone, hp]
      · rfl
      · rw [forall_settings]
        exact ⟨show ascii "host" ≠ ascii "password" by decide, show ascii "port" ≠ ascii "password" by decide,
          show ascii "dbname" ≠ ascii "password" by decide, show ascii "user" ≠ ascii "password" by decide,
          fun h => absurd hp h⟩
    · rw [hpassword hp]
      rfl
  · intro k hk
    apply hnone
    intro p hp heq
    exact hk (heq ▸ settings_keywords p hp)

/-- A configuration is read from settings that have all it puts in. -/
theorem Carried.settings {as : Settings UInt8} (h : Carried c as) :
    ∀ p ∈ c.settings, Grammar.setting as p.1 = some p.2 := by
  rw [forall_settings]
  refine ⟨h.host, h.port, h.dbname, h.user, ?_⟩
  intro hne
  have hp := h.password
  cases hs : Grammar.setting as (ascii "password") with
  | none =>
    rw [hs] at hp
    exact absurd hp.symm hne
  | some v =>
    rw [hs] at hp
    exact congrArg some hp

/-- Without a NUL in it, the whole string is read. -/
theorem cStr_connInfo : cStr c.connInfo = c.connInfo ↔ ∀ p ∈ c.settings, 0 ∉ p.2 := by
  rw [cStr, List.takeWhile_eq_self_iff, connInfo_eq]
  constructor
  · intro h p hp h0
    simpa using h 0 (Grammar.value_mem_render hp h0)
  · intro h x hx
    rw [bne_iff_ne]
    rintro rfl
    rcases Grammar.mem_render hx with h0 | h0 | ⟨p, hp, h0 | h0⟩
    · cases h0
    · cases h0
    · exact (keywords_plain _ (settings_keywords p hp) 0 h0).2.2 rfl
    · exact h p hp h0

theorem carried_iff (c : DbConfig) (hc : c.configured) :
    (∃ settings, readConnInfo c.connInfo = some settings ∧ Carried c settings) ↔ c.NeedsNoQuotes := by
  rw [needsNoQuotes_iff]
  constructor
  · intro h
    obtain ⟨as, hread, hcarried⟩ := h
    have hprefix : cStr c.connInfo <+: c.connInfo := List.takeWhile_prefix _
    have hlen : (cStr c.connInfo).length ≤ (libpq.render sp c.settings).length := by
      rw [← connInfo_eq]
      exact hprefix.length_le
    -- The settings fill the string, so all of it was read.
    obtain ⟨-, -, hfull⟩ := Grammar.read_tight settings_keys hcarried.settings hlen hread
    rw [← connInfo_eq] at hfull
    have hwhole : cStr c.connInfo = c.connInfo := hprefix.eq_of_length hfull
    rw [readConnInfo, hwhole, connInfo_eq] at hread
    have hsolid := Grammar.solid_of_read settings_keys settings_plain (settings_last hc.2) hcarried.settings hread
    exact fun p hp => ⟨hsolid p hp, cStr_connInfo.mp hwhole p hp⟩
  · intro h
    refine ⟨c.settings, ?_, carried_settings⟩
    rw [readConnInfo, cStr_connInfo.mpr fun p hp => (h p hp).2, connInfo_eq]
    exact Grammar.read_render (by decide) settings_plain fun p hp => (h p hp).1

theorem carried_iff_defaults :
    (∃ settings, readConnInfo (connInfo ⟨ascii "localhost", ascii "5432", ascii "app", ascii "web", ascii "s3cret"⟩) =
      some settings ∧ Carried ⟨ascii "localhost", ascii "5432", ascii "app", ascii "web", ascii "s3cret"⟩ settings) ↔
    NeedsNoQuotes ⟨ascii "localhost", ascii "5432", ascii "app", ascii "web", ascii "s3cret"⟩ :=
  carried_iff _ (by decide)

/-- A password of two words is read as one, and the second as a setting of its own. -/
theorem password_becomes_setting :
    readConnInfo (connInfo ⟨ascii "localhost", ascii "5432", ascii "app", ascii "web", ascii "x sslmode=disable"⟩) =
      some [(ascii "host", ascii "localhost"), (ascii "port", ascii "5432"), (ascii "dbname", ascii "app"),
        (ascii "user", ascii "web"), (ascii "password", ascii "x"), (ascii "sslmode", ascii "disable")] ∧
    ¬ ∃ settings,
      readConnInfo (connInfo ⟨ascii "localhost", ascii "5432", ascii "app", ascii "web", ascii "x sslmode=disable"⟩) =
        some settings ∧
      Carried ⟨ascii "localhost", ascii "5432", ascii "app", ascii "web", ascii "x sslmode=disable"⟩ settings := by
  have hread : readConnInfo
      (connInfo ⟨ascii "localhost", ascii "5432", ascii "app", ascii "web", ascii "x sslmode=disable"⟩) =
      some [(ascii "host", ascii "localhost"), (ascii "port", ascii "5432"), (ascii "dbname", ascii "app"),
        (ascii "user", ascii "web"), (ascii "password", ascii "x"), (ascii "sslmode", ascii "disable")] := by
    decide +kernel
  refine ⟨hread, ?_⟩
  rintro ⟨settings, hsettings, hcarried⟩
  rw [hread] at hsettings
  cases hsettings
  exact absurd hcarried.password (by decide)

end DbConfig

end BreWebServer.Database
