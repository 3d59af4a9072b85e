/-
  BreWebServer.Frontend.Lookup — looking a field up in a form by its name.

  `_extractParam` looks for the text `key=` in the whole body. On a form it finds that
  text where a name ends with the key, or, for a key that has a separator in it, where
  the key runs over the fields before a name (`extractParam_cases`). So it reads the
  field called `key` in every arrangement of the fields exactly when all that is found
  so has the value of that field (`lookup_by_name_iff`); for a key without separators:
  when every field whose name ends with the key has it (`onlyOwn_iff_of_separate`).
-/

import BreWebServer.Frontend.Form

namespace BreWebServer.Frontend

open BreWebServer.Lib BreWebServer.Cpp BreWebServer.Http BreWebServer.Server

/-- What a lookup of `key` is for: the value of the field called so, `+` read as a space;
    nothing where there is none. -/
def fieldValue (key : Bytes) (fields : List (Bytes × Bytes)) : Bytes := ((fields.lookup key).map plusToSpace).getD []

/-- The field looked up by its name, in every arrangement of the fields. -/
def FoundByName (key : Bytes) (fields : List (Bytes × Bytes)) : Prop :=
  ∀ arranged, arranged.Perm fields → ∀ req : HttpRequest, req.body = form arranged →
    extractParam req key = fieldValue key fields

/-- What a form has before the fields behind these. -/
def before (fields : List (Bytes × Bytes)) : Bytes := fields.flatMap fun f => f.1 ++ 61 :: (f.2 ++ [38])

/-- Wherever a name, with what stands before it, ends with `key`, the value is that of
    the field called `key`; in every arrangement of the fields. -/
def OnlyOwn (key : Bytes) (fields : List (Bytes × Bytes)) : Prop :=
  ∀ arranged, arranged.Perm fields → ∀ pre f post, arranged = pre ++ f :: post → key <:+ before pre ++ f.1 →
    plusToSpace f.2 = fieldValue key fields

/-! ## Where `key=` stands in a form -/

variable {fields : List (Bytes × Bytes)} {key : Bytes}

theorem form_cons (f : Bytes × Bytes) (fields : List (Bytes × Bytes)) :
    form (f :: fields) = f.1 ++ 61 :: (f.2 ++ if fields = [] then [] else 38 :: form fields) := rfl

theorem form_append (pre : List (Bytes × Bytes)) (f : Bytes × Bytes) (post : List (Bytes × Bytes)) :
    form (pre ++ f :: post) = before pre ++ form (f :: post) := by
  induction pre with
  | nil => rfl
  | cons g pre ih =>
    rw [List.cons_append, form_cons, if_neg (by simp), ih]
    simp [before]

/-- A separator is not in a part that is free of it. -/
theorem split_behind {x : UInt8} {v w a b : Bytes} (hv : x ∉ v) (h : v ++ w = a ++ x :: b) :
    ∃ c, a = v ++ c ∧ w = c ++ x :: b := by
  rcases List.append_eq_append_iff.mp h with ⟨c, ha, hw⟩ | ⟨c, hc, hw⟩
  · exact ⟨c, ha, hw⟩
  · cases c with
    | nil => exact ⟨[], by simpa using hc.symm, by simpa using hw.symm⟩
    | cons y c =>
      obtain ⟨rfl, -⟩ := List.cons.inj hw
      exact absurd (by rw [hc]; simp) hv

/-- The `=` of a form stand behind its names. -/
theorem form_split (hf : ∀ f ∈ fields, Separate f.1 ∧ Separate f.2) : ∀ {a b : Bytes}, form fields = a ++ 61 :: b →
    ∃ pre f post, fields = pre ++ f :: post ∧ a = before pre ++ f.1 ∧
      b = f.2 ++ if post = [] then [] else 38 :: form post := by
  induction fields with
  | nil =>
    intro a b h
    simp [form] at h
  | cons f fields ih =>
    intro a b h
    rw [List.forall_mem_cons] at hf
    obtain ⟨⟨hn, hv⟩, hf⟩ := hf
    rw [form_cons] at h
    obtain ⟨c, rfl, hc⟩ := split_behind hn.2 h
    cases c with
    | nil =>
      rw [List.nil_append, List.cons.injEq] at hc
      exact ⟨[], f, fields, rfl, by simp [before], hc.2.symm⟩
    | cons y c =>
      rw [List.cons_append, List.cons.injEq] at hc
      obtain ⟨rfl, hc⟩ := hc
      -- It is behind the value too, so it is one of the fields behind.
      obtain ⟨d, rfl, hd⟩ := split_behind hv.2 hc
      split at hd
      · simp at hd
      · cases d with
        | nil => cases hd
        | cons z d =>
          rw [List.cons_append, List.cons.injEq] at hd
          obtain ⟨rfl, hd⟩ := hd
          obtain ⟨pre, g, post, rfl, rfl, rfl⟩ := ih hf hd
          exact ⟨f :: pre, g, post, rfl, by simp [before], rfl⟩

theorem value_behind {v : Bytes} (hv : 38 ∉ v) (post : List (Bytes × Bytes)) :
    (v ++ if post = [] then [] else 38 :: form post).takeWhile (· != 38) = v := by
  apply takeWhile_value hv
  intro c hc
  split at hc
  · cases hc
  · exact (Option.some.inj hc).symm

/-- `_extractParam` on a form, for any key: it reads a value whose name, with what stands
    before it, ends with the key, and nothing where there is no such name. -/
theorem extractParam_cases (hf : ∀ f ∈ fields, Separate f.1 ∧ Separate f.2) {req : HttpRequest}
    (hbody : req.body = form fields) :
    (∃ pre f post, fields = pre ++ f :: post ∧ key <:+ before pre ++ f.1 ∧ extractParam req key = plusToSpace f.2) ∨
    ((∀ pre f post, fields = pre ++ f :: post → ¬ key <:+ before pre ++ f.1) ∧ extractParam req key = []) := by
  have hassoc : ∀ a b : Bytes, a ++ (key ++ [61]) ++ b = (a ++ key) ++ 61 :: b := by simp
  unfold extractParam
  rw [hbody, show ascii "=" = [61] from rfl]
  cases hc : cut (key ++ [61]) (form fields) with
  | none =>
    refine .inr ⟨?_, rfl⟩
    rw [cut_eq_none_iff (by simp)] at hc
    intro pre f post heq hkey
    obtain ⟨s, hs⟩ := hkey
    apply hc
    refine ⟨s, f.2 ++ if post = [] then [] else 38 :: form post, ?_⟩
    rw [heq, form_append, form_cons, hassoc, hs, List.append_assoc]
  | some r =>
    obtain ⟨a, b⟩ := r
    have hform := cut_eq hc
    rw [hassoc] at hform
    obtain ⟨pre, f, post, heq, ha, rfl⟩ := form_split hf hform
    refine .inl ⟨pre, f, post, heq, ⟨a, ha⟩, ?_⟩
    have hv : 38 ∉ f.2 := (hf f (by rw [heq]; simp)).2.1
    simp only [value_behind hv, plusToSpace]

/-! ## Which names end with a key -/

/-- A key without separators lies within one name. -/
theorem suffix_before (hk : Separate key) (pre : List (Bytes × Bytes)) {name : Bytes} :
    key <:+ before pre ++ name ↔ key <:+ name := by
  rcases List.eq_nil_or_concat pre with rfl | ⟨pre, f, rfl⟩
  · rfl
  · have hassoc : before (pre ++ [f]) ++ name = (before pre ++ f.1 ++ 61 :: f.2) ++ 38 :: name := by simp [before]
    rw [List.concat_eq_append, hassoc, suffix_behind hk.1]

/-- Any other key has the whole name at its end, and the `&` before it. -/
theorem name_ends_key (hk : ¬ Separate key) {pre : List (Bytes × Bytes)} {name : Bytes} (hn : Separate name)
    (h : key <:+ before pre ++ name) : 38 :: name <:+ key := by
  have hshort : ¬ key <:+ name := by
    intro hin
    exact hk ⟨fun hm => hn.1 (hin.subset hm), fun hm => hn.2 (hin.subset hm)⟩
  rcases List.eq_nil_or_concat pre with rfl | ⟨pre, f, rfl⟩
  · exact absurd h hshort
  · have hassoc : before (pre ++ [f]) ++ name = (before pre ++ f.1 ++ 61 :: f.2) ++ 38 :: name := by simp [before]
    rw [List.concat_eq_append, hassoc] at h
    rcases List.suffix_or_suffix_of_suffix h (List.suffix_append _ _) with h' | h'
    · rcases List.suffix_cons_iff.mp h' with rfl | h'
      · exact List.suffix_rfl
      · exact absurd h' hshort
    · exact h'

theorem names_unique {a b : Bytes} (ha : Separate a) (hb : Separate b) (hka : 38 :: a <:+ key) (hkb : 38 :: b <:+ key) :
    a = b := by
  have hone : ∀ {a b : Bytes}, Separate b → 38 :: a <:+ 38 :: b → a = b := by
    intro a b hb h
    rcases List.suffix_cons_iff.mp h with h | h
    · exact (List.cons.inj h).2
    · exact absurd (h.subset List.mem_cons_self) hb.1
  rcases List.suffix_or_suffix_of_suffix hka hkb with h | h
  · exact hone hb h
  · exact (hone ha h).symm

theorem onlyOwn_iff_of_separate (hk : Separate key) :
    OnlyOwn key fields ↔ ∀ f ∈ fields, key <:+ f.1 → plusToSpace f.2 = fieldValue key fields := by
  constructor
  · intro h f hf hkey
    obtain ⟨pre, post, rfl⟩ := List.append_of_mem hf
    exact h _ (List.Perm.refl _) pre f post rfl ((suffix_before hk pre).mpr hkey)
  · intro h arranged hperm pre f post heq hkey
    refine h f ?_ ((suffix_before hk pre).mp hkey)
    rw [← hperm.mem_iff, heq]
    simp

/-! ## Lookups -/

/-- Where no name is the key, there is no value to read. -/
theorem fieldValue_absent (h : ∀ f ∈ fields, f.1 ≠ key) : fieldValue key fields = [] := by
  unfold fieldValue
  rw [List.lookup_eq_none_iff.mpr]
  · rfl
  · intro f hf
    simpa using (h f hf).symm

theorem found_of_onlyOwn (hf : ∀ f ∈ fields, Separate f.1 ∧ Separate f.2) (h : OnlyOwn key fields) :
    FoundByName key fields := by
  intro arranged hperm req hbody
  have hfa : ∀ f ∈ arranged, Separate f.1 ∧ Separate f.2 := fun f hm => hf f (hperm.mem_iff.mp hm)
  rcases @extractParam_cases arranged key hfa req hbody with ⟨pre, f, post, heq, hkey, hread⟩ | ⟨hnone, hread⟩
  · rw [hread]
    exact h arranged hperm pre f post heq hkey
  · rw [hread, fieldValue_absent]
    intro f hm hname
    obtain ⟨pre, post, rfl⟩ := List.append_of_mem (hperm.mem_iff.mpr hm)
    exact hnone pre f post rfl ⟨before pre, by rw [hname]⟩

/-- A form's lookup goes by whole names exactly when all the places it can find are the
    key's own field, or have that field's value. -/
theorem lookup_by_name_iff (key : Bytes) (fields : List (Bytes × Bytes)) (hnames : (fields.map (·.1)).Nodup)
    (hf : ∀ f ∈ fields, Separate f.1 ∧ Separate f.2) : FoundByName key fields ↔ OnlyOwn key fields := by
  refine ⟨?_, found_of_onlyOwn hf⟩
  intro h arranged hperm pre f post heq hkey
  have hfa : ∀ f ∈ arranged, Separate f.1 ∧ Separate f.2 := fun f hm => hf f (hperm.mem_iff.mp hm)
  have hmem : f ∈ arranged := by rw [heq]; simp
  by_cases hk : Separate key
  · -- With the field first, it is its value that is read.
    have hfirst : (f :: (pre ++ post)).Perm fields := by
      refine List.Perm.trans ?_ hperm
      rw [heq]
      exact List.perm_middle.symm
    have hff : ∀ g ∈ f :: (pre ++ post), Separate g.1 ∧ Separate g.2 := fun g hm => hf g (hfirst.mem_iff.mp hm)
    rw [← h _ hfirst { HttpRequest.fresh with body := form (f :: (pre ++ post)) } rfl, extractParam_form hk hff rfl,
      List.find?_cons_of_pos (by simpa using (suffix_before hk pre).mp hkey)]
    rfl
  · -- The key ends with one whole name, so one field is read in this arrangement.
    obtain ⟨req, hbody⟩ : ∃ req : HttpRequest, req.body = form arranged :=
      ⟨{ HttpRequest.fresh with body := form arranged }, rfl⟩
    have hread := h arranged hperm req hbody
    rcases @extractParam_cases arranged key hfa req hbody with ⟨pre', g, post', heq', hkey', hg⟩ | ⟨hnone, -⟩
    · have hmem' : g ∈ arranged := by rw [heq']; simp
      have hname : f.1 = g.1 := names_unique (hfa f hmem).1 (hfa g hmem').1 (name_ends_key hk (hfa f hmem).1 hkey)
        (name_ends_key hk (hfa g hmem').1 hkey')
      have hnodup : (arranged.map (·.1)).Nodup := (hperm.map _).nodup_iff.mpr hnames
      rw [List.inj_on_of_nodup_map hnodup hmem hmem' hname, ← hg]
      exact hread
    · exact absurd hkey (hnone pre f post heq)

theorem lookup_by_name_iff_username :
    FoundByName (ascii "username") [(ascii "username", ascii "ada"), (ascii "password", ascii "x")] ↔
      OnlyOwn (ascii "username") [(ascii "username", ascii "ada"), (ascii "password", ascii "x")] :=
  lookup_by_name_iff _ _ (by decide) (by decide)

/-- Someone who registers as `ada` with a nickname is registered by the nickname, if it is
    sent first. -/
theorem nickname_read_as_username :
    ¬ FoundByName (ascii "username") [(ascii "nickusername", ascii "ace"), (ascii "username", ascii "ada")] := by
  intro h
  exact absurd (h _ (List.Perm.refl _)
    { HttpRequest.fresh with body := ascii "nickusername=ace&username=ada" } (by decide)) (by decide)

end BreWebServer.Frontend
