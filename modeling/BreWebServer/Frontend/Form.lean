/-
  BreWebServer.Frontend.Form — the forms that the pages send and `_extractParam` reads.

  `extractParam_form`: on a form whose names and values are free of `&` and `=`, the value
  read for a key is that of the first field whose name ends with it.

  `login.html` and `register.html` write their values with `encodeURIComponent`, whose
  output is free of both; the server turns `+` into a space and decodes nothing else. So
  the values come back as they were encoded, and as they were typed exactly when nothing
  of them is encoded (`forms_decode_iff`).
-/

import BreWebServer.Lib.Cut
import BreWebServer.Server.HandleRequest

namespace BreWebServer.Frontend

open BreWebServer.Lib BreWebServer.Cpp BreWebServer.Http BreWebServer.Server

/-! ## Forms -/

/-- `name=value` fields, separated by `&`. -/
def form : List (Bytes × Bytes) → Bytes
  | [] => []
  | (name, value) :: fields => name ++ 61 :: (value ++ if fields = [] then [] else 38 :: form fields)

def plusToSpace (s : Bytes) : Bytes := s.map fun c => if c = 43 then sp else c

def Separate (s : Bytes) : Prop := 38 ∉ s ∧ 61 ∉ s

instance (s : Bytes) : Decidable (Separate s) := inferInstanceAs (Decidable (38 ∉ s ∧ 61 ∉ s))

/-- A key without `&` that ends a text ends what stands behind its last `&`. -/
theorem suffix_behind {key a b : Bytes} (hk : 38 ∉ key) : key <:+ a ++ 38 :: b ↔ key <:+ b := by
  constructor
  · intro h
    obtain ⟨s, h⟩ := h
    rcases List.append_eq_append_iff.mp h with ⟨c, -, hc⟩ | ⟨c, -, hc⟩
    · exact absurd (by rw [hc]; simp) hk
    · cases c with
      | nil => exact absurd (by rw [← show _ = key from hc]; simp) hk
      | cons y c =>
        cases hc
        exact ⟨c, rfl⟩
  · intro h
    obtain ⟨s, rfl⟩ := h
    exact ⟨a ++ 38 :: s, by simp⟩

/-- A value is read from its start to the next `&`. -/
theorem takeWhile_value {value : Bytes} (h : 38 ∉ value) {rest : Bytes} (hrest : ∀ c, rest.head? = some c → c = 38) :
    (value ++ rest).takeWhile (· != 38) = value := by
  have hpos : ∀ c ∈ value, (c != 38) = true := by
    intro c hc
    rw [bne_iff_ne]
    intro heq
    subst heq
    exact h hc
  rw [List.takeWhile_append_of_pos hpos]
  cases rest with
  | nil => simp
  | cons c rest => simp [hrest c rfl]

theorem cut_absent {key s : Bytes} (h : 61 ∉ s) : cut (key ++ [61]) s = none := by
  rw [cut_eq_none_iff (by simp)]
  intro hi
  exact h (hi.subset (by simp))

/-- What is cut behind a key is the value of the first field whose name ends with it. -/
theorem cut_form {key : Bytes} (hk : Separate key) (fields : List (Bytes × Bytes))
    (hf : ∀ f ∈ fields, Separate f.1 ∧ Separate f.2) : ∀ {before : Bytes}, 61 ∉ before →
    (∀ name, key <:+ before ++ name ↔ key <:+ name) →
    (cut (key ++ [61]) (before ++ form fields)).map (fun r => r.2.takeWhile (· != 38)) =
      (fields.find? fun f => key <:+ f.1).map (·.2) := by
  induction fields with
  | nil =>
    intro before hb _
    rw [cut_absent (by simpa [form] using hb)]
    rfl
  | cons f fields ih =>
    intro before hb hsuffix
    obtain ⟨name, value⟩ := f
    simp only [List.forall_mem_cons] at hf
    obtain ⟨⟨hn, hv⟩, hf⟩ := hf
    have hassoc : before ++ form ((name, value) :: fields) =
        (before ++ name) ++ 61 :: (value ++ if fields = [] then [] else 38 :: form fields) := by simp [form]
    have hbn : 61 ∉ before ++ name := by
      rw [List.mem_append, not_or]
      exact ⟨hb, hn.2⟩
    rw [hassoc]
    by_cases hkey : key <:+ name
    · obtain ⟨front, rfl⟩ := hkey
      have hfront : 61 ∉ before ++ front := by
        intro h
        apply hbn
        rw [← List.append_assoc]
        exact List.mem_append_left _ h
      have htail : ∀ c, (if fields = [] then [] else 38 :: form fields).head? = some c → c = 38 := by
        intro c hc
        split at hc
        · cases hc
        · exact (Option.some.inj hc).symm
      rw [← List.append_assoc, cut_ended_here hk.2 hfront, Option.map_some, takeWhile_value hv.1 htail]
      simp
    · have hnot : ¬ key <:+ before ++ name := fun h => hkey ((hsuffix name).mp h)
      rw [cut_ended_skip hk.2 hbn hnot, Option.map_map, List.find?_cons_of_neg (by simpa using hkey)]
      by_cases hlast : fields = []
      · subst hlast
        rw [if_pos rfl, List.append_nil, cut_absent hv.2]
        rfl
      · have hbefore : 61 ∉ value ++ [38] := by simp [hv.2]
        have := ih hf hbefore (fun name => by rw [List.append_assoc, List.singleton_append, suffix_behind hk.1])
        rw [if_neg hlast]
        simpa [Function.comp_def] using this

/-- `_extractParam` on such a form. -/
theorem extractParam_form {key : Bytes} (hk : Separate key) {fields : List (Bytes × Bytes)}
    (hf : ∀ f ∈ fields, Separate f.1 ∧ Separate f.2) {req : HttpRequest} (hbody : req.body = form fields) :
    extractParam req key = ((fields.find? fun f => key <:+ f.1).map fun f => plusToSpace f.2).getD [] := by
  have hcut := @cut_form key hk fields hf [] List.not_mem_nil (fun name => Iff.rfl)
  rw [List.nil_append] at hcut
  unfold extractParam
  rw [hbody, show ascii "=" = [61] from rfl]
  cases hc : cut (key ++ [61]) (form fields) with
  | none =>
    rw [hc, Option.map_none] at hcut
    rw [Option.map_eq_none_iff.mp hcut.symm]
    rfl
  | some r =>
    rw [hc, Option.map_some] at hcut
    obtain ⟨f, hfound, hvalue⟩ := Option.map_eq_some_iff.mp hcut.symm
    rw [hfound]
    simp only [Option.map_some, Option.getD_some, plusToSpace, hvalue]

/-! ## The pages' encoder -/

/-- What `encodeURIComponent` leaves as it is. -/
def unreserved : List Char :=
  "ABCDEFGHIJKLMNOPQRSTUVWXYZabcdefghijklmnopqrstuvwxyz0123456789-_.!~*'()".toList

def utf8 (s : List Char) : Bytes := s.flatMap String.utf8EncodeChar

def upperHexDigit (n : Nat) : UInt8 := if n < 10 then (48 + n).toUInt8 else (55 + n).toUInt8

def percent (b : UInt8) : Bytes := [37, upperHexDigit (b.toNat / 16), upperHexDigit (b.toNat % 16)]

def encodeURIComponent (s : List Char) : Bytes :=
  s.flatMap fun c => if c ∈ unreserved then String.utf8EncodeChar c else (String.utf8EncodeChar c).flatMap percent

/-- `formData` of `doLogin`. -/
def loginForm (username password : List Char) : Bytes :=
  ascii "username=" ++ encodeURIComponent username ++ ascii "&password=" ++ encodeURIComponent password

/-- `formData` of `doRegister`. -/
def registerForm (username password email : List Char) : Bytes :=
  ascii "username=" ++ encodeURIComponent username ++ ascii "&password=" ++ encodeURIComponent password ++
    ascii "&email=" ++ encodeURIComponent email

theorem upperHexDigit_plain {n : Nat} (h : n < 16) : upperHexDigit n ≠ 38 ∧ upperHexDigit n ≠ 61 ∧ upperHexDigit n ≠ 43 := by
  have hall : ∀ n : Fin 16, upperHexDigit n ≠ 38 ∧ upperHexDigit n ≠ 61 ∧ upperHexDigit n ≠ 43 := by decide
  exact hall ⟨n, h⟩

theorem unreserved_plain : ∀ c ∈ unreserved, ∀ b ∈ String.utf8EncodeChar c, b ≠ 38 ∧ b ≠ 61 ∧ b ≠ 43 := by
  have hall : unreserved.all (fun c => (String.utf8EncodeChar c).all fun b => b != 38 && b != 61 && b != 43) = true := by decide
  intro c hc b hb
  have := List.all_eq_true.mp (List.all_eq_true.mp hall c hc) b hb
  simpa [and_assoc] using this

/-- Encoded text has no separator in it, and no plus. -/
theorem encodeURIComponent_plain {s : List Char} : ∀ b ∈ encodeURIComponent s, b ≠ 38 ∧ b ≠ 61 ∧ b ≠ 43 := by
  intro b hb
  obtain ⟨c, -, hc⟩ := List.mem_flatMap.mp hb
  split at hc
  · exact unreserved_plain c ‹_› b hc
  · obtain ⟨d, -, hd⟩ := List.mem_flatMap.mp hc
    have hlt := d.toNat_lt
    simp only [percent, List.mem_cons, List.not_mem_nil, or_false] at hd
    rcases hd with rfl | rfl | rfl
    · decide
    · exact upperHexDigit_plain (by omega)
    · exact upperHexDigit_plain (by omega)

theorem encodeURIComponent_separate (s : List Char) : Separate (encodeURIComponent s) :=
  ⟨fun h => (encodeURIComponent_plain _ h).1 rfl, fun h => (encodeURIComponent_plain _ h).2.1 rfl⟩

theorem plusToSpace_encoded (s : List Char) : plusToSpace (encodeURIComponent s) = encodeURIComponent s := by
  unfold plusToSpace
  rw [List.map_congr_left (g := id)]
  · simp
  · intro b hb
    rw [if_neg (encodeURIComponent_plain b hb).2.2]
    rfl

/-- Encoding never shortens a text, and lengthens one that has a character to encode. -/
theorem encodeURIComponent_length (s : List Char) : (utf8 s).length ≤ (encodeURIComponent s).length ∧
    ((utf8 s).length = (encodeURIComponent s).length → ∀ c ∈ s, c ∈ unreserved) := by
  induction s with
  | nil => exact ⟨le_rfl, fun _ c hc => by cases hc⟩
  | cons c s ih =>
    have hpos : 0 < (String.utf8EncodeChar c).length := List.length_pos_iff.mpr String.utf8EncodeChar_ne_nil
    have hpercent : ((String.utf8EncodeChar c).flatMap percent).length = 3 * (String.utf8EncodeChar c).length := by
      simp [List.length_flatMap, percent, Nat.mul_comm]
    simp only [utf8, encodeURIComponent, List.flatMap_cons, List.length_append] at ih ⊢
    by_cases hc : c ∈ unreserved
    · simp only [hc, if_true]
      refine ⟨by omega, ?_⟩
      intro h d hd
      rcases List.mem_cons.mp hd with rfl | hd
      · exact hc
      · exact ih.2 (by omega) d hd
    · simp only [hc, if_false, hpercent]
      exact ⟨by omega, fun h => by omega⟩

/-- Exactly the texts of unreserved characters are sent as they are. -/
theorem encoded_eq_iff (s : List Char) : encodeURIComponent s = utf8 s ↔ ∀ c ∈ s, c ∈ unreserved := by
  constructor
  · intro h
    exact (encodeURIComponent_length s).2 (by rw [h])
  · intro h
    unfold encodeURIComponent utf8
    apply List.flatMap_congr
    intro c hc
    rw [if_pos (h c hc)]

/-! ## What the server reads of the pages' forms -/

variable {req : HttpRequest} {username password email : List Char}

/-- The names of the pages' fields. -/
def fieldNames : List Bytes := [ascii "username", ascii "password", ascii "email"]

/-- No field's name ends with another's. -/
theorem fieldNames_apart : ∀ key ∈ fieldNames, Separate key ∧ ∀ name ∈ fieldNames, key <:+ name → key = name := by decide

/-- An encoded field of a form comes back as it was encoded. -/
theorem extractParam_field {fields : List (Bytes × List Char)} (hnames : ∀ f ∈ fields, f.1 ∈ fieldNames)
    (honce : (fields.map (·.1)).Nodup) (hbody : req.body = form (fields.map fun f => (f.1, encodeURIComponent f.2)))
    {key : Bytes} {value : List Char} (hm : (key, value) ∈ fields) : extractParam req key = encodeURIComponent value := by
  obtain ⟨hk, hown⟩ := fieldNames_apart key (hnames _ hm)
  have hf : ∀ f ∈ fields.map fun f => (f.1, encodeURIComponent f.2), Separate f.1 ∧ Separate f.2 := by
    intro f hmem
    obtain ⟨g, hg, rfl⟩ := List.mem_map.mp hmem
    exact ⟨(fieldNames_apart g.1 (hnames g hg)).1, encodeURIComponent_separate g.2⟩
  have hfound : (fields.find? fun f => key <:+ f.1) = some (key, value) := by
    cases hfind : fields.find? fun f => key <:+ f.1 with
    | none => exact absurd (List.suffix_refl key) (by simpa using List.find?_eq_none.mp hfind _ hm)
    | some f =>
      have hin := List.mem_of_find?_eq_some hfind
      have hsuffix : key <:+ f.1 := by simpa using List.find?_some hfind
      rw [List.inj_on_of_nodup_map honce hm hin (hown f.1 (hnames f hin) hsuffix)]
  rw [extractParam_form hk hf hbody, List.find?_map]
  simp only [Function.comp_def, hfound, Option.map_some, Option.getD_some, plusToSpace_encoded]

theorem login_fields (h : req.body = loginForm username password) :
    extractParam req (ascii "username") = encodeURIComponent username ∧
    extractParam req (ascii "password") = encodeURIComponent password := by
  have hfield := @extractParam_field req [(ascii "username", username), (ascii "password", password)]
    (by simp [fieldNames]) (by simp; decide) (by rw [h]; simp [loginForm, form, ascii])
  exact ⟨hfield (by simp), hfield (by simp)⟩

theorem register_fields (h : req.body = registerForm username password email) :
    extractParam req (ascii "username") = encodeURIComponent username ∧
    extractParam req (ascii "password") = encodeURIComponent password ∧
    extractParam req (ascii "email") = encodeURIComponent email := by
  have hfield := @extractParam_field req
    [(ascii "username", username), (ascii "password", password), (ascii "email", email)]
    (by simp [fieldNames]) (by simp; decide) (by rw [h]; simp [registerForm, form, ascii])
  exact ⟨hfield (by simp), hfield (by simp), hfield (by simp)⟩

theorem forms_decode_iff (username password email : List Char) :
    ((∀ req : HttpRequest, req.body = loginForm username password →
      extractParam req (ascii "username") = utf8 username ∧ extractParam req (ascii "password") = utf8 password) ∧
    ∀ req : HttpRequest, req.body = registerForm username password email →
      extractParam req (ascii "username") = utf8 username ∧ extractParam req (ascii "password") = utf8 password ∧
        extractParam req (ascii "email") = utf8 email) ↔
    ∀ c ∈ username ++ password ++ email, c ∈ unreserved := by
  rw [List.forall_mem_append, List.forall_mem_append, ← encoded_eq_iff, ← encoded_eq_iff, ← encoded_eq_iff]
  constructor
  · intro h
    -- The form of `register.html` has all three.
    have hread := h.2 { HttpRequest.fresh with body := registerForm username password email } rfl
    obtain ⟨hu, hp, he⟩ := @register_fields { HttpRequest.fresh with body := registerForm username password email }
      username password email rfl
    rw [hu, hp, he] at hread
    exact ⟨⟨hread.1, hread.2.1⟩, hread.2.2⟩
  · intro h
    obtain ⟨⟨hu, hp⟩, he⟩ := h
    refine ⟨?_, ?_⟩
    · intro req hbody
      rw [(login_fields hbody).1, (login_fields hbody).2]
      exact ⟨hu, hp⟩
    · intro req hbody
      rw [(register_fields hbody).1, (register_fields hbody).2.1, (register_fields hbody).2.2]
      exact ⟨hu, hp, he⟩

/-- `ada@x` comes back as `ada%40x`. -/
theorem at_sign_stays_encoded :
    extractParam { HttpRequest.fresh with body := loginForm "ada@x".toList "secret".toList } (ascii "username") =
      ascii "ada%40x" ∧
    extractParam { HttpRequest.fresh with body := loginForm "ada@x".toList "secret".toList } (ascii "username") ≠
      utf8 "ada@x".toList := by decide

end BreWebServer.Frontend
