/-
  BreWebServer.Frontend.Pages — `register.html` and `login.html` over the whole server.

  The server decodes nothing that `encodeURIComponent` encodes, but what it keeps and what it
  compares are encoded alike, and the encoding loses nothing (`percentDecode_encoded`). So
  for whoever uses the pages it makes no difference (`pages_log_in`): what is typed on
  `login.html` is answered 200 exactly when the same name was typed on `register.html`, with
  a password of the same digest, and that was answered 200.
-/

import BreWebServer.Frontend.Form
import BreWebServer.Server.Site

namespace BreWebServer.Frontend

open BreWebServer.Lib BreWebServer.Cpp BreWebServer.Database BreWebServer.Http BreWebServer.Server BreWebServer.Service

/-! ## Encoding loses nothing -/

def hexValue (c : UInt8) : UInt8 := if c < 58 then c - 48 else c - 55

/-- Undo `percent` wherever it stands. -/
def percentDecode : Bytes → Bytes
  | [] => []
  | 37 :: a :: b :: rest => (16 * hexValue a + hexValue b) :: percentDecode rest
  | c :: rest => c :: percentDecode rest

theorem percentDecode_other {c : UInt8} (h : c ≠ 37) (rest : Bytes) : percentDecode (c :: rest) = c :: percentDecode rest := by
  rw [percentDecode]
  intro a b rest' hc
  exact absurd hc h

theorem hexValue_upperHexDigit {n : Nat} (h : n < 16) : hexValue (upperHexDigit n) = n.toUInt8 := by
  have hall : ∀ n : Fin 16, hexValue (upperHexDigit n) = n.val.toUInt8 := by decide
  exact hall ⟨n, h⟩

theorem percentDecode_percent (b : UInt8) (rest : Bytes) : percentDecode (percent b ++ rest) = b :: percentDecode rest := by
  have hlt := b.toNat_lt
  have hvalue : (16 * hexValue (upperHexDigit (b.toNat / 16)) + hexValue (upperHexDigit (b.toNat % 16)) : UInt8) = b := by
    rw [hexValue_upperHexDigit (by omega), hexValue_upperHexDigit (by omega)]
    apply UInt8.toNat_inj.mp
    simp only [UInt8.toNat_add, UInt8.toNat_mul, Nat.toUInt8, UInt8.toNat_ofNat']
    show (16 * (b.toNat / 16 % 2 ^ 8) % 2 ^ 8 + b.toNat % 16 % 2 ^ 8) % 2 ^ 8 = b.toNat
    omega
  simp only [percent, List.cons_append, List.nil_append, percentDecode, hvalue]

theorem percentDecode_percents (bs rest : Bytes) : percentDecode (bs.flatMap percent ++ rest) = bs ++ percentDecode rest := by
  induction bs with
  | nil => rfl
  | cons b bs ih => rw [List.flatMap_cons, List.append_assoc, percentDecode_percent, ih, List.cons_append]

/-- An unreserved character is one byte, and not the percent sign. -/
theorem unreserved_byte : ∀ c ∈ unreserved, ∃ b, String.utf8EncodeChar c = [b] ∧ b ≠ 37 := by
  have hall : unreserved.all (fun c =>
      (String.utf8EncodeChar c).length == 1 && !(String.utf8EncodeChar c).contains 37) = true := by decide
  intro c hc
  have h := List.all_eq_true.mp hall c hc
  simp only [Bool.and_eq_true, beq_iff_eq, Bool.not_eq_true', List.contains_eq_mem, decide_eq_false_iff_not] at h
  obtain ⟨b, hb⟩ := List.length_eq_one_iff.mp h.1
  rw [hb, List.mem_singleton] at h
  exact ⟨b, hb, Ne.symm h.2⟩

theorem percentDecode_encoded (s : List Char) : percentDecode (encodeURIComponent s) = utf8 s := by
  induction s with
  | nil => rfl
  | cons c s ih =>
    rw [encodeURIComponent, List.flatMap_cons, utf8, List.flatMap_cons]
    split
    · rename_i hc
      obtain ⟨b, hb, hne⟩ := unreserved_byte c hc
      rw [hb, List.singleton_append, percentDecode_other hne]
      exact congrArg (b :: ·) ih
    · rw [percentDecode_percents]
      exact congrArg _ ih

theorem utf8_inj {s t : List Char} (h : utf8 s = utf8 t) : s = t := by
  have henc : s.utf8Encode = t.utf8Encode := congrArg List.toByteArray h
  have hdec := congrArg ByteArray.utf8Decode? henc
  rw [List.utf8Decode?_utf8Encode, List.utf8Decode?_utf8Encode] at hdec
  simpa using hdec

theorem encodeURIComponent_inj {s t : List Char} (h : encodeURIComponent s = encodeURIComponent t) : s = t := by
  apply utf8_inj
  rw [← percentDecode_encoded, h, percentDecode_encoded]

/-- Encoded text has no NUL and no space in it. -/
theorem encodeURIComponent_visible {s : List Char} : ∀ b ∈ encodeURIComponent s, b ≠ 0 ∧ b ≠ sp := by
  have hdigit : ∀ n : Fin 16, upperHexDigit n ≠ 0 ∧ upperHexDigit n ≠ sp := by decide
  have hunreserved : unreserved.all (fun c => (String.utf8EncodeChar c).all fun b => b != 0 && b != sp) = true := by decide
  intro b hb
  obtain ⟨c, -, hc⟩ := List.mem_flatMap.mp hb
  split at hc
  · have := List.all_eq_true.mp (List.all_eq_true.mp hunreserved c ‹_›) b hc
    simpa using this
  · obtain ⟨d, -, hd⟩ := List.mem_flatMap.mp hc
    have hlt := d.toNat_lt
    simp only [percent, List.mem_cons, List.not_mem_nil, or_false] at hd
    rcases hd with rfl | rfl | rfl
    · decide
    · exact hdigit ⟨d.toNat / 16, by omega⟩
    · exact hdigit ⟨d.toNat % 16, by omega⟩

/-! ## What the pages send -/

/-- The length of a string in the pages' language. -/
def utf16Length (s : List Char) : Nat := (s.map fun c => if c.toNat < 0x10000 then 1 else 2).sum

/-- The body of `/api/login`, unless a message is shown instead. -/
def doLogin (username password : List Char) : Option Bytes :=
  if username = [] ∨ password = [] then none else some (loginForm username password)

/-- The body of `/api/register`, unless a message is shown instead. -/
def doRegister (username password email : List Char) : Option Bytes :=
  if username = [] ∨ password = [] then none
  else if utf16Length password < 6 then none
  else some (registerForm username password email)

theorem encoded_ne_nil {s : List Char} (h : s ≠ []) : encodeURIComponent s ≠ [] := by
  intro hnil
  exact h (encodeURIComponent_inj hnil)

variable {req : HttpRequest} {username password email : List Char}

theorem login_typed (h : doLogin username password = some req.body) : (formOf req).Complete ∧
    (formOf req).username = encodeURIComponent username ∧ (formOf req).password = encodeURIComponent password := by
  unfold doLogin at h
  split at h
  · cases h
  · rename_i hne
    obtain ⟨hu, hp⟩ := not_or.mp hne
    obtain ⟨husername, hpassword⟩ := login_fields (Option.some.inj h).symm
    refine ⟨⟨?_, ?_⟩, husername, hpassword⟩
    · show extractParam req _ ≠ []
      rw [husername]
      exact encoded_ne_nil hu
    · show extractParam req _ ≠ []
      rw [hpassword]
      exact encoded_ne_nil hp

theorem register_typed (h : doRegister username password email = some req.body) :
    (formOf req).username = encodeURIComponent username ∧ (formOf req).password = encodeURIComponent password := by
  unfold doRegister at h
  split at h
  · cases h
  · split at h
    · cases h
    · obtain ⟨husername, hpassword, -⟩ := register_fields (Option.some.inj h).symm
      exact ⟨husername, hpassword⟩

/-! ## What they come to -/

variable {pg : Postgres}

/-- An encoded text that a column takes is kept as it is. -/
theorem column_encoded {n : Nat} {s : List Char} {name : Bytes}
    (h : Users.column pg n (pg.quote (encodeURIComponent s)) = some name) :
    name = encodeURIComponent s ∧ Users.text pg (pg.quote (encodeURIComponent s)) = some name := by
  obtain ⟨t, ht, hv⟩ := Option.bind_eq_some_iff.mp h
  obtain rfl := Users.text_quote_some (fun hm => (encodeURIComponent_visible 0 hm).1 rfl) ht
  obtain rfl := Users.varchar_unspaced hv fun hm => (encodeURIComponent_visible sp hm).2 rfl
  exact ⟨rfl, ht⟩

variable {δ : Type} {cfg : Config δ} {sha256 : Bytes → List UInt8} {users : Users}

/-- The name of a page's registration selects its own row, and no other typed name does. -/
theorem sameName_typed {registration : Visit} {username' : List Char} (hr : IsRegister registration.req)
    (hok : statusOf cfg pg sha256 users registration = some .ok)
    (hname : (formOf registration.req).username = encodeURIComponent username) :
    SameName pg (formOf registration.req).username (encodeURIComponent username') ↔ username = username' := by
  obtain ⟨-, -, row, -, hleft⟩ := serve_registered hr hok
  have hcolumn := hleft.username
  rw [hname] at hcolumn ⊢
  obtain ⟨hkept, htext⟩ := column_encoded hcolumn
  constructor
  · intro hsame
    obtain ⟨name, hreg, hlogin⟩ := hsame
    have hclear : 0 ∉ encodeURIComponent username' := fun hm => (encodeURIComponent_visible 0 hm).1 rfl
    have hlogin := Users.text_quote_some hclear hlogin
    exact encodeURIComponent_inj ((column_encoded hreg).1.symm.trans hlogin.symm)
  · rintro rfl
    exact ⟨row.username, hcolumn, htext⟩

/-- Who gets in by the pages, whatever the connections and whatever is typed. -/
theorem pages_log_in {es : List Site.Event} {s : Site} {i : Nat} {c : Completion} {fs : Fs} {call : Call} {visit : Visit}
    (h : Site.after cfg pg sha256 .empty es = some s) (hdigest : ∀ j c fs call, .handle j c fs call ∈ es → call.digest = true)
    (hpages : ∀ v ∈ s.visits, IsRegister v.2.req → ∃ username password email,
      doRegister username password email = some v.2.req.body)
    (hv : s.visitOf i c fs call = some visit) (hl : IsLogin visit.req) (htyped : doLogin username password = some visit.req.body)
    (hw : call.works = true) (hd : call.digest = true) (hp : cfg.postgres = true) :
    statusOf cfg pg sha256 s.users visit = some .ok ↔
      ∃ registration password' email, Site.RegisteredIn cfg pg sha256 es registration ∧
        doRegister username password' email = some registration.req.body ∧
        sha256 (encodeURIComponent password') = sha256 (encodeURIComponent password) := by
  obtain ⟨hcomplete, husername, hpassword⟩ := login_typed htyped
  rw [Site.login_means_registered h hdigest hv hl hw hd hp, husername, hpassword]
  constructor
  · intro hparts
    obtain ⟨-, registration, hreg, hname, hsame⟩ := hparts
    obtain ⟨older, hat⟩ := (Site.registeredIn_iff h registration).mp hreg
    obtain ⟨⟨j, v⟩, hm, rfl⟩ := List.mem_map.mp (hat.among.subset (List.mem_append_right older (List.mem_singleton_self _)))
    obtain ⟨username', password', email, htyped'⟩ := hpages _ hm hat.register
    obtain ⟨husername', hpassword'⟩ := register_typed htyped'
    obtain rfl := (sameName_typed hat.register hat.ok husername').mp hname
    exact ⟨v, password', email, hreg, htyped', by rw [← hpassword']; exact hsame⟩
  · intro hparts
    obtain ⟨registration, password', email, hreg, htyped', hsame⟩ := hparts
    obtain ⟨older, hat⟩ := (Site.registeredIn_iff h registration).mp hreg
    obtain ⟨husername', hpassword'⟩ := register_typed htyped'
    exact ⟨hcomplete, registration, hreg, (sameName_typed hat.register hat.ok husername').mpr rfl, by rw [hpassword']; exact hsame⟩

/-- What a browser sends of a form. -/
def posted (path body : Bytes) : Bytes :=
  ascii "POST " ++ path ++ ascii " HTTP/1.1\r\nContent-Length: " ++ decimalString body.length ++ ascii "\r\n\r\n" ++ body

/-- Somebody registers and logs in, with a name and a password that are encoded. -/
def registerAda : Bytes :=
  posted (ascii "/api/register") (registerForm "Ада".toList "тайна 1".toList "ada@x.org".toList)

def loginAda : Bytes := posted (ascii "/api/login") (loginForm "Ада".toList "тайна 1".toList)

def adaRegisters : List Site.Event :=
  Site.registerThenLogin.take 16 ++ [.server (.session 0 (.complete (.read registerAda))),
    .server (.session 1 (.complete (.read loginAda))), .handle 0 (.read registerAda) site Accounts.works]

theorem ada_logs_in : ∃ s visit, Site.after databaseConfig .singleByte Accounts.digestOf .empty adaRegisters = some s ∧
    s.visitOf 1 (.read loginAda) site Accounts.works = some visit ∧
    ∃ registration password' email, Site.RegisteredIn databaseConfig .singleByte Accounts.digestOf adaRegisters registration ∧
      doRegister "Ада".toList password' email = some registration.req.body ∧
      Accounts.digestOf (encodeURIComponent password') = Accounts.digestOf (encodeURIComponent "тайна 1".toList) := by
  have hv : ((Site.after databaseConfig .singleByte Accounts.digestOf .empty adaRegisters).bind fun s =>
      (s.visitOf 1 (.read loginAda) site Accounts.works).map fun visit =>
        decide (visit.req.method = .post ∧ visit.req.path = ascii "/api/login" ∧
          doLogin "Ада".toList "тайна 1".toList = some visit.req.body ∧
          s.visits.map (·.2.req.body) = [registerForm "Ада".toList "тайна 1".toList "ada@x.org".toList] ∧
          statusOf databaseConfig .singleByte Accounts.digestOf s.users visit = some .ok)) = some true := by decide +kernel
  obtain ⟨s, hs, hv⟩ := Option.bind_eq_some_iff.mp hv
  obtain ⟨visit, hvisit, hd⟩ := Option.map_eq_some_iff.mp hv
  obtain ⟨hpost, hpath, htyped, hbodies, hok⟩ := of_decide_eq_true hd
  have hdigest : ∀ j c fs call, .handle j c fs call ∈ adaRegisters → call.digest = true := by
    intro j c fs call hm
    simp only [adaRegisters, Site.registerThenLogin, List.take_succ_cons, List.take_zero, List.cons_append, List.nil_append,
      List.mem_cons, List.not_mem_nil, or_false, reduceCtorEq, false_or, Site.Event.handle.injEq] at hm
    rw [hm.2.2.2]
    rfl
  have hpages : ∀ v ∈ s.visits, IsRegister v.2.req → ∃ username password email,
      doRegister username password email = some v.2.req.body := by
    intro v hm _
    have hbody := List.mem_map_of_mem (f := (·.2.req.body)) hm
    rw [hbodies, List.mem_singleton] at hbody
    exact ⟨"Ада".toList, "тайна 1".toList, "ada@x.org".toList, by rw [hbody]; decide⟩
  exact ⟨s, visit, hs, hvisit, (pages_log_in hs hdigest hpages hvisit ⟨hpost, hpath⟩ htyped rfl rfl rfl).mp hok⟩

end BreWebServer.Frontend
