/-
  BreWebServer.Lib.Settings — lists of `keyword=value` settings, separated by blanks.

  `read` is the reader: blanks before a keyword, around its `=` and behind a value are
  skipped; a value is bare and ends at a blank, or it begins with a quote and ends at the
  next one; an escape takes the next symbol as it is; a setting made again replaces the one
  before (`setting`).

  Reading ends, whatever the fuel (`readFrom_fuel`). What is read never has more to it than
  the text, and as much only where the text is the settings as they are: bare values,
  single blanks (`readFrom_weight`, `Written`). Such a text is read back (`read_written`).
  So settings put together without quotes are read back if all their values can stand bare
  (`read_render`), and only then (`solid_of_read`).
-/

import Mathlib.Data.List.Perm.Subperm
import Mathlib.Data.Multiset.AddSub
import Mathlib.Tactic

namespace BreWebServer.Lib

/-- Keywords with their values, in order. -/
abbrev Settings (α : Type*) := List (List α × List α)

/-- The symbols of a settings list. -/
structure Grammar (α : Type*) where
  blank : α → Bool
  equals : α
  quote : α
  escape : α
  equals_solid : blank equals = false

namespace Grammar

variable {α : Type*} (g : Grammar α)

/-! ## Settings as they are -/

/-- The settings put together, one `sep` between two. -/
def render (sep : α) : Settings α → List α
  | [] => []
  | (k, v) :: s => k ++ g.equals :: (v ++ if s = [] then [] else sep :: render sep s)

/-- A value that is read as it stands, if there is anything to it. -/
def Solid (v : List α) : Prop := (∀ c ∈ v, g.blank c = false ∧ c ≠ g.escape) ∧ v.head? ≠ some g.quote

/-- A keyword that is read as it stands. -/
def Plain (k : List α) : Prop := ∀ c ∈ k, g.blank c = false ∧ c ≠ g.equals

/-- Settings as they are: each keyword, `=`, and a bare value, one blank between two. -/
inductive Written : Settings α → List α → Prop
  | nil : Written [] []
  | last (k v : List α) : g.Solid v → Written [(k, v)] (k ++ g.equals :: v)
  | cons {k v : List α} {b : α} {s : Settings α} {t : List α} : g.Solid v → v ≠ [] → g.blank b = true →
      t ≠ [] → Written s t → Written ((k, v) :: s) (k ++ g.equals :: (v ++ b :: t))

/-- What a setting takes, a separator behind it counted. -/
def weight (s : List α × List α) : Nat := s.1.length + s.2.length + 2

/-- What a text has room for. -/
def room (t : List α) : Nat := if t = [] then 0 else t.length + 1

/-- A text that is a bare value, up to its end or up to a blank. -/
def Stands (g : Grammar α) (t v r : List α) : Prop :=
  (∀ c ∈ v, g.blank c = false ∧ c ≠ g.escape) ∧
    (t = v ∧ r = [] ∨ r ≠ [] ∧ ∃ b, g.blank b = true ∧ t = v ++ b :: r)

section Written

variable {g} {t r k v : List α} {sep : α} {s : Settings α}

theorem room_le (t : List α) : room t ≤ t.length + 1 := by
  unfold room
  split
  · omega
  · exact le_rfl

theorem room_mono {t t' : List α} (h : t.length ≤ t'.length) : room t ≤ room t' := by
  unfold room
  split
  · omega
  · rename_i ht
    have := List.length_pos_iff.mpr ht
    have ht' : t' ≠ [] := List.ne_nil_of_length_pos (by omega)
    rw [if_neg ht']
    omega

theorem length_of_room {t t' : List α} (h : room t = room t') : t.length = t'.length := by
  unfold room at h
  split at h
  · split at h
    · simp only [*]
    · omega
  · split at h
    · omega
    · omega

theorem length_le_room (t : List α) : t.length ≤ room t := by
  unfold room
  split
  · simp only [*, List.length_nil, le_rfl]
  · omega

theorem length_dropWhile (p : α → Bool) (t : List α) : (t.dropWhile p).length ≤ t.length :=
  (List.dropWhile_suffix p).length_le

/-- Blanks in front take room. -/
theorem dropWhile_cases (p : α → Bool) (t : List α) :
    t.dropWhile p = t ∨ (t.dropWhile p).length < t.length := by
  cases t with
  | nil => exact .inl rfl
  | cons c t =>
    cases hc : p c with
    | false => exact .inl (List.dropWhile_cons_of_neg (by simp [hc]))
    | true =>
      right
      rw [List.dropWhile_cons_of_pos hc]
      exact Nat.lt_succ_of_le (length_dropWhile p t)

theorem Stands.room (h : g.Stands t v r) : v.length + Grammar.room r ≤ t.length := by
  rcases h.2 with ⟨rfl, rfl⟩ | ⟨-, b, -, rfl⟩
  · simp [Grammar.room]
  · have := room_le r
    simp only [List.length_append, List.length_cons]
    omega

theorem Stands.cons {c : α} (h : g.Stands t v r) (hb : g.blank c = false) (he : c ≠ g.escape) :
    g.Stands (c :: t) (c :: v) r := by
  refine ⟨List.forall_mem_cons.mpr ⟨⟨hb, he⟩, h.1⟩, ?_⟩
  rcases h.2 with ⟨rfl, rfl⟩ | ⟨hr, b, hbl, rfl⟩
  · exact .inl ⟨rfl, rfl⟩
  · exact .inr ⟨hr, b, hbl, rfl⟩

theorem Stands.head {c : α} (h : g.Stands (c :: t) v r) (hc : g.blank c = false) : v.head? = some c := by
  rcases h.2 with ⟨rfl, -⟩ | ⟨-, b, hb, ht⟩
  · rfl
  · cases v with
    | nil =>
      obtain ⟨rfl, -⟩ := List.cons.inj ht
      rw [hb] at hc
      cases hc
    | cons x v =>
      rw [List.cons_append, List.cons.injEq] at ht
      rw [ht.1]
      rfl

theorem Written.of_nil (h : g.Written s t) (ht : t = []) : s = [] := by
  cases h with
  | nil => rfl
  | last k v _ => simp at ht
  | cons => simp at ht

/-- A setting read as it stands is one more of the settings as they are. -/
theorem Written.extend (hsolid : g.Solid v) (hst : g.Stands t v r) (hne : v = [] → r = [])
    (h : g.Written s r) : g.Written ((k, v) :: s) (k ++ g.equals :: t) := by
  rcases hst.2 with ⟨rfl, rfl⟩ | ⟨hr, b, hb, rfl⟩
  · rw [h.of_nil rfl]
    exact .last k t hsolid
  · exact .cons hsolid (fun hv => hr (hne hv)) hb hr h

theorem Written.room (h : g.Written s t) : (s.map weight).sum = Grammar.room t := by
  induction h with
  | nil => rfl
  | last k v _ =>
    simp [weight, Grammar.room]
    omega
  | cons _ _ _ ht _ ih =>
    simp [weight, Grammar.room, ih, ht]
    omega

theorem Written.solid (h : g.Written s t) : ∀ p ∈ s, g.Solid p.2 := by
  induction h with
  | nil => exact fun p hp => by cases hp
  | last k v hv => simpa using hv
  | cons hv _ _ _ _ ih => exact List.forall_mem_cons.mpr ⟨hv, ih⟩

/-- Only the last value can be missing. -/
theorem Written.nonempty (h : g.Written s t) : (∀ p ∈ s.getLast?, p.2 ≠ []) → ∀ p ∈ s, p.2 ≠ [] := by
  induction h with
  | nil => exact fun _ p hp => by cases hp
  | last k v _ => simp
  | @cons k v b s t _ hne _ ht hw ih =>
    intro hlast
    have hs : s ≠ [] := by
      rintro rfl
      cases hw
      exact ht rfl
    rw [List.getLast?_cons_of_ne_nil hs] at hlast
    exact List.forall_mem_cons.mpr ⟨hne, ih hlast⟩

theorem render_ne_nil (p : List α × List α) (s : Settings α) : g.render sep (p :: s) ≠ [] := by
  simp [render]

/-- What is put together. -/
theorem mem_render {x : α} (h : x ∈ g.render sep s) : x = sep ∨ x = g.equals ∨ ∃ p ∈ s, x ∈ p.1 ∨ x ∈ p.2 := by
  induction s with
  | nil => cases h
  | cons p s ih =>
    simp only [render, List.mem_append, List.mem_cons] at h
    rcases h with h | h | h | h
    · exact .inr (.inr ⟨p, List.mem_cons_self, .inl h⟩)
    · exact .inr (.inl h)
    · exact .inr (.inr ⟨p, List.mem_cons_self, .inr h⟩)
    · split at h
      · cases h
      · rcases List.mem_cons.mp h with h | h
        · exact .inl h
        · rcases ih h with h | h | ⟨q, hq, h⟩
          · exact .inl h
          · exact .inr (.inl h)
          · exact .inr (.inr ⟨q, List.mem_cons_of_mem _ hq, h⟩)

theorem value_mem_render {p : List α × List α} (hp : p ∈ s) {x : α} (hx : x ∈ p.2) : x ∈ g.render sep s := by
  induction s with
  | nil => cases hp
  | cons q s ih =>
    rcases List.mem_cons.mp hp with rfl | hp
    · simp [render, hx]
    · simp [render, ih hp, List.ne_nil_of_mem hp]

theorem room_render : room (g.render sep s) = (s.map weight).sum := by
  induction s with
  | nil => rfl
  | cons p s ih =>
    have hroom : ∀ t : List α, t ≠ [] → room t = t.length + 1 := fun t ht => if_neg ht
    rw [hroom _ (render_ne_nil p s), List.map_cons, List.sum_cons, ← ih]
    cases s with
    | nil =>
      simp [render, weight, room]
      omega
    | cons q s =>
      rw [hroom _ (render_ne_nil q s)]
      simp [render, weight]
      omega

/-- Settings whose values can stand bare are as they are when they are put together. -/
theorem written_render (hsep : g.blank sep = true) (hs : ∀ p ∈ s, g.Solid p.2 ∧ p.2 ≠ []) :
    g.Written s (g.render sep s) := by
  induction s with
  | nil => exact .nil
  | cons p s ih =>
    obtain ⟨⟨hsolid, hne⟩, hs⟩ := List.forall_mem_cons.mp hs
    cases s with
    | nil => simpa [render] using Written.last p.1 p.2 hsolid
    | cons q s => exact .cons hsolid hne hsep (render_ne_nil q s) (ih hs)

end Written

variable [DecidableEq α]

/-! ## The reader -/

/-- A keyword, up to its `=`. -/
def keyword : List α → Option (List α × List α)
  | [] => none
  | c :: t =>
    if c = g.equals then some ([], t)
    else if g.blank c then
      match t.dropWhile g.blank with
      | [] => none
      | d :: t => if d = g.equals then some ([], t) else none
    else (keyword t).map fun r => (c :: r.1, r.2)

/-- A bare value, up to a blank. -/
def bare : List α → List α × List α
  | [] => ([], [])
  | c :: t =>
    if g.blank c then ([], t)
    else if c = g.escape then
      match t with
      | [] => ([], [])
      | d :: t => (d :: (bare t).1, (bare t).2)
    else (c :: (bare t).1, (bare t).2)

/-- A value behind its opening quote; `none` where the closing one is missing. -/
def quoted : List α → Option (List α × List α)
  | [] => none
  | c :: t =>
    if c = g.escape then
      match t with
      | [] => none
      | d :: t => (quoted t).map fun r => (d :: r.1, r.2)
    else if c = g.quote then some ([], t)
    else (quoted t).map fun r => (c :: r.1, r.2)

def valueHere : List α → Option (List α × List α)
  | [] => some ([], [])
  | c :: t => if c = g.quote then g.quoted t else some (g.bare (c :: t))

/-- A value, blanks before it skipped. -/
def value (t : List α) : Option (List α × List α) := g.valueHere (t.dropWhile g.blank)

/-- At most `n` settings. -/
def readFrom : Nat → List α → Option (Settings α)
  | 0, _ => none
  | n + 1, t =>
    match t.dropWhile g.blank with
    | [] => some []
    | c :: t =>
      match g.keyword (c :: t) with
      | none => none
      | some (k, t) =>
        match g.value t with
        | none => none
        | some (v, t) => (readFrom n t).map ((k, v) :: ·)

def read (t : List α) : Option (Settings α) := g.readFrom (t.length + 1) t

/-- The last setting of a keyword counts. -/
def setting (settings : Settings α) (k : List α) : Option (List α) := settings.reverse.lookup k

variable {g} {t r k v : List α} {sep : α} {s : Settings α}

/-! ## What is read has its room -/

/-- A keyword stands as it is in front of its `=`, or takes more than itself. -/
theorem keyword_weight : ∀ {t k r : List α}, g.keyword t = some (k, r) →
    t = k ++ g.equals :: r ∨ k.length + 1 + r.length < t.length := by
  intro t
  induction t with
  | nil => intro k r h; cases h
  | cons c t ih =>
    intro k r h
    simp only [keyword] at h
    split at h
    · rename_i hc
      cases h
      exact .inl (by rw [hc]; rfl)
    · split at h
      · -- A blank behind the keyword.
        right
        have hle := length_dropWhile g.blank t
        split at h
        · cases h
        · rename_i d u hd
          rw [hd, List.length_cons] at hle
          split at h
          · cases h
            simp only [List.length_nil, List.length_cons]
            omega
          · cases h
      · obtain ⟨⟨k', r'⟩, hk, heq⟩ := Option.map_eq_some_iff.mp h
        cases heq
        rcases ih hk with ht | hlt
        · exact .inl (by rw [ht]; rfl)
        · right
          simp only [List.length_cons]
          omega

theorem bare_weight (t : List α) :
    g.Stands t (g.bare t).1 (g.bare t).2 ∨ (g.bare t).1.length + room (g.bare t).2 < t.length := by
  fun_induction bare g t with
  | case1 => exact .inl ⟨by simp, .inl ⟨rfl, rfl⟩⟩
  | case2 c t hb =>
    by_cases ht : t = []
    · right
      simp [ht, room]
    · exact .inl ⟨by simp, .inr ⟨ht, c, hb, rfl⟩⟩
  | case3 =>
    right
    simp [room]
  | case4 d t _ ih =>
    right
    have hle : (g.bare t).1.length + room (g.bare t).2 ≤ t.length := ih.elim Stands.room Nat.le_of_lt
    simp only [List.length_cons]
    omega
  | case5 c t hb he ih =>
    rcases ih with ih | ih
    · exact .inl (ih.cons (by simpa using hb) he)
    · right
      simp only [List.length_cons]
      omega

theorem quoted_weight : ∀ {t v r : List α}, g.quoted t = some (v, r) → v.length + room r ≤ t.length := by
  intro t
  fun_induction quoted g t with
  | case1 => intro v r h; cases h
  | case2 => intro v r h; cases h
  | case3 d t ih =>
    intro v r h
    obtain ⟨⟨v', r'⟩, hq, heq⟩ := Option.map_eq_some_iff.mp h
    cases heq
    have := ih hq
    simp only [List.length_cons]
    omega
  | case4 t =>
    intro v r h
    cases h
    simpa using room_le t
  | case5 c t _ _ ih =>
    intro v r h
    obtain ⟨⟨v', r'⟩, hq, heq⟩ := Option.map_eq_some_iff.mp h
    cases heq
    have := ih hq
    simp only [List.length_cons]
    omega

/-- A value is read as it stands, with a separator behind it unless it is the last, or it
    takes more than itself. -/
theorem valueHere_weight (h : g.valueHere t = some (v, r)) (ht : ∀ c ∈ t.head?, g.blank c = false) :
    (g.Solid v ∧ g.Stands t v r ∧ (v = [] → r = [])) ∨ v.length + room r < t.length := by
  cases t with
  | nil =>
    cases h
    exact .inl ⟨⟨by simp, by simp⟩, ⟨by simp, .inl ⟨rfl, rfl⟩⟩, fun _ => rfl⟩
  | cons c t =>
    simp only [valueHere] at h
    split at h
    · right
      have := quoted_weight h
      simp only [List.length_cons]
      omega
    · rename_i hquote
      obtain ⟨rfl, rfl⟩ := Prod.mk.inj (Option.some.inj h)
      rcases bare_weight (g := g) (c :: t) with hst | hlt
      · left
        have hhead := hst.head (ht c rfl)
        refine ⟨⟨hst.1, ?_⟩, hst, ?_⟩
        · rw [hhead]
          simpa using hquote
        · intro hnil
          rw [hnil] at hhead
          cases hhead
      · exact .inr hlt

theorem value_weight (h : g.value t = some (v, r)) :
    (g.Solid v ∧ g.Stands t v r ∧ (v = [] → r = [])) ∨ v.length + room r < t.length := by
  have hhead : ∀ c ∈ (t.dropWhile g.blank).head?, g.blank c = false := by
    intro c hc
    have := List.head?_dropWhile_not g.blank t
    rw [Option.mem_def.mp hc] at this
    simpa using this
  have hw := valueHere_weight h hhead
  rcases dropWhile_cases g.blank t with ht | hlt
  · rwa [ht] at hw
  · right
    rcases hw with ⟨-, hst, -⟩ | hw
    · exact Nat.lt_of_le_of_lt hst.room hlt
    · omega

/-- One setting: as it stands, or with more to it than itself. -/
theorem setting_weight {u : List α} (hk : g.keyword t = some (k, u)) (hv : g.value u = some (v, r)) :
    (t = k ++ g.equals :: u ∧ g.Solid v ∧ g.Stands u v r ∧ (v = [] → r = [])) ∨
      weight (k, v) + room r < t.length + 1 := by
  have hle : v.length + room r ≤ u.length := by
    rcases value_weight hv with ⟨-, hst, -⟩ | hlt
    · exact hst.room
    · exact hlt.le
  simp only [weight]
  rcases keyword_weight hk with rfl | hlt
  · rcases value_weight hv with ⟨hsolid, hst, hne⟩ | hlt
    · exact .inl ⟨rfl, hsolid, hst, hne⟩
    · right
      simp only [List.length_append, List.length_cons]
      omega
  · right
    omega

/-- What a round does. -/
theorem readFrom_cases {n : Nat} (h : g.readFrom (n + 1) t = some s) :
    (t.dropWhile g.blank = [] ∧ s = []) ∨
    ∃ k u v r s', g.keyword (t.dropWhile g.blank) = some (k, u) ∧ g.value u = some (v, r) ∧ g.readFrom n r = some s' ∧
      s = (k, v) :: s' := by
  simp only [readFrom] at h
  split at h
  · rename_i hnil
    cases h
    exact .inl ⟨hnil, rfl⟩
  · rename_i c u hc
    split at h
    · cases h
    · rename_i k u' hk
      split at h
      · cases h
      · rename_i v r hv
        obtain ⟨s', hs', rfl⟩ := Option.map_eq_some_iff.mp h
        exact .inr ⟨k, u', v, r, s', by rw [hc, hk], hv, hs', rfl⟩

theorem keyword_ne_nil (hk : g.keyword t = some (k, r)) : t ≠ [] := by
  rintro rfl
  cases hk

omit [DecidableEq α] in
theorem sum_le_room (h : g.Written s t ∨ (s.map weight).sum < room t) : (s.map weight).sum ≤ room t := by
  rcases h with hw | hlt
  · exact hw.room.le
  · exact hlt.le

omit [DecidableEq α] in
theorem weight_behind_blanks (p : α → Bool)
    (h : g.Written s (t.dropWhile p) ∨ (s.map weight).sum < room (t.dropWhile p)) :
    g.Written s t ∨ (s.map weight).sum < room t := by
  rcases dropWhile_cases p t with ht | hlt
  · rwa [ht] at h
  · right
    have hle := sum_le_room h
    have hroom := room_le (t.dropWhile p)
    have ht : t ≠ [] := List.ne_nil_of_length_pos (by omega)
    rw [room, if_neg ht]
    omega

theorem weight_cons {u : List α} (hk : g.keyword t = some (k, u)) (hv : g.value u = some (v, r))
    (h : g.Written s r ∨ (s.map weight).sum < room r) :
    g.Written ((k, v) :: s) t ∨ (((k, v) :: s).map weight).sum < room t := by
  have hle := sum_le_room h
  have hroom : room t = t.length + 1 := if_neg (keyword_ne_nil hk)
  rw [List.map_cons, List.sum_cons, hroom]
  rcases setting_weight hk hv with ⟨heq, hsolid, hst, hne⟩ | hlt
  · rcases h with hw | hlt
    · left
      rw [heq]
      exact hw.extend hsolid hst hne
    · right
      have hstands := hst.room
      have hlen := congrArg List.length heq
      simp only [weight, List.length_append, List.length_cons] at hlen ⊢
      omega
  · right
    omega

/-- What is read has room in the text, and takes all of it only where the text is the
    settings as they are. -/
theorem readFrom_weight (n : Nat) : ∀ {t : List α} {s : Settings α}, g.readFrom n t = some s →
    g.Written s t ∨ (s.map weight).sum < room t := by
  induction n with
  | zero => intro t s h; cases h
  | succ n ih =>
    intro t s h
    apply weight_behind_blanks g.blank
    rcases readFrom_cases h with ⟨hnil, rfl⟩ | ⟨k, u, v, r, s', hk, hv, hs', rfl⟩
    · rw [hnil]
      exact .inl .nil
    · exact weight_cons hk hv (ih hs')

/-- A setting read leaves less to read. -/
theorem setting_shorter {u : List α} (hk : g.keyword t = some (k, u)) (hv : g.value u = some (v, r)) :
    r.length < t.length := by
  have hr := length_le_room r
  rcases setting_weight hk hv with ⟨rfl, -, hst, -⟩ | hlt
  · have := hst.room
    simp only [List.length_append, List.length_cons]
    omega
  · simp only [weight] at hlt
    omega

/-- More rounds than symbols change nothing. -/
theorem readFrom_fuel (n : Nat) : ∀ {t : List α} {m : Nat}, t.length < n → t.length < m →
    g.readFrom n t = g.readFrom m t := by
  induction n with
  | zero => intro t m h; omega
  | succ n ih =>
    intro t m hn hm
    obtain ⟨m, rfl⟩ : ∃ k, m = k + 1 := ⟨m - 1, by omega⟩
    have hdrop := length_dropWhile g.blank t
    simp only [readFrom]
    split
    · rfl
    · rename_i c u hc
      rw [hc] at hdrop
      split
      · rfl
      · rename_i k u' hk
        split
        · rfl
        · rename_i v r hv
          have := setting_shorter hk hv
          have hrest : g.readFrom n r = g.readFrom m r := ih (by omega) (by omega)
          rw [hrest]

/-! ## Settings as they are are read back -/

theorem keyword_plain (hk : g.Plain k) (r : List α) : g.keyword (k ++ g.equals :: r) = some (k, r) := by
  induction k with
  | nil => simp [keyword]
  | cons c k ih =>
    obtain ⟨⟨hb, he⟩, hk⟩ := List.forall_mem_cons.mp hk
    rw [List.cons_append, keyword, if_neg he, if_neg (by simp [hb]), ih hk]
    rfl

theorem bare_blank {b : α} (hb : g.blank b = true) (t : List α) : g.bare (b :: t) = ([], t) := by
  rw [bare.eq_def]
  simp only [hb, if_true]

theorem bare_cons {c : α} (hb : g.blank c = false) (he : c ≠ g.escape) (t : List α) :
    g.bare (c :: t) = (c :: (g.bare t).1, (g.bare t).2) := by
  rw [bare.eq_def]
  simp only [hb, he, Bool.false_eq_true, if_false]

theorem bare_solid (hv : ∀ c ∈ v, g.blank c = false ∧ c ≠ g.escape) (t : List α) :
    g.bare (v ++ t) = (v ++ (g.bare t).1, (g.bare t).2) := by
  induction v with
  | nil => rfl
  | cons c v ih =>
    obtain ⟨⟨hb, he⟩, hv⟩ := List.forall_mem_cons.mp hv
    rw [List.cons_append, bare_cons hb he, ih hv]
    rfl

theorem value_solid {c : α} (hv : g.Solid (c :: v)) (t : List α) :
    g.value ((c :: v) ++ t) = some (c :: v ++ (g.bare t).1, (g.bare t).2) := by
  have hc := (hv.1 c List.mem_cons_self).1
  have hq : c ≠ g.quote := by simpa using hv.2
  rw [value, List.cons_append, List.dropWhile_cons_of_neg (by simp [hc]), valueHere, if_neg hq,
    ← List.cons_append, bare_solid hv.1]

theorem read_nil : g.read [] = some [] := rfl

theorem read_pair {s : Settings α} (hk : g.Plain k) (hv : g.value t = some (v, r))
    (hs : g.read r = some s) : g.read (k ++ g.equals :: t) = some ((k, v) :: s) := by
  have hdrop : (k ++ g.equals :: t).dropWhile g.blank = k ++ g.equals :: t := by
    cases k with
    | nil => exact List.dropWhile_cons_of_neg (by simp [g.equals_solid])
    | cons c k => exact List.dropWhile_cons_of_neg (by simp [(hk c List.mem_cons_self).1])
  have hkey := keyword_plain hk t
  have hrest : g.readFrom (k ++ g.equals :: t).length r = some s := by
    rw [← hs]
    exact readFrom_fuel _ (setting_shorter hkey hv) (Nat.lt_succ_self _)
  unfold read
  simp only [readFrom, hdrop]
  cases hku : k ++ g.equals :: t with
  | nil => simp at hku
  | cons c u =>
    rw [hku] at hkey hrest
    simp only [hkey, hv, hrest, Option.map_some]

theorem read_written {s : Settings α} (h : g.Written s t) : (∀ p ∈ s, g.Plain p.1) → g.read t = some s := by
  induction h with
  | nil => exact fun _ => read_nil
  | last k v hv =>
    intro hp
    refine read_pair (hp _ List.mem_cons_self) ?_ read_nil
    cases v with
    | nil => rfl
    | cons c v => simpa [bare] using value_solid hv []
  | @cons k v b s t hv hne hb ht _ ih =>
    intro hp
    obtain ⟨hk, hp⟩ := List.forall_mem_cons.mp hp
    refine read_pair hk ?_ (ih hp)
    cases v with
    | nil => exact absurd rfl hne
    | cons c v => simpa [bare_blank hb] using value_solid hv (b :: t)

/-! ## Settings put together -/

theorem mem_of_setting {as : Settings α} (h : setting as k = some v) : (k, v) ∈ as := by
  obtain ⟨l₁, l₂, hl, -⟩ := List.lookup_eq_some_iff.mp h
  rw [← List.mem_reverse, hl]
  simp

theorem setting_self (hkeys : (s.map (·.1)).Nodup) {p : List α × List α} (hp : p ∈ s) : setting s p.1 = some p.2 := by
  cases hl : setting s p.1 with
  | none => simpa using List.lookup_eq_none_iff.mp hl p (List.mem_reverse.mpr hp)
  | some v => rw [← List.inj_on_of_nodup_map hkeys (mem_of_setting hl) hp rfl]

/-- Settings that have others among them, and no more room, are those. -/
theorem perm_of_settings {as : Settings α} (hkeys : (s.map (·.1)).Nodup)
    (hsame : ∀ p ∈ s, setting as p.1 = some p.2) (hroom : (as.map weight).sum ≤ (s.map weight).sum) : as.Perm s := by
  have hsub : s ⊆ as := fun p hp => mem_of_setting (hsame p hp)
  obtain ⟨l, hl, hla⟩ := List.subperm_of_subset (List.Nodup.of_map _ hkeys) hsub
  obtain ⟨rest, hrest⟩ := hla.exists_perm_append
  have hsum := (hrest.map weight).sum_eq
  have hsum' := (hl.map weight).sum_eq
  rw [List.map_append, List.sum_append] at hsum
  cases rest with
  | nil =>
    rw [List.append_nil] at hrest
    exact hrest.trans hl
  | cons p rest =>
    simp only [List.map_cons, List.sum_cons, weight] at hsum
    omega

/-- Settings read from a text no longer than themselves put together are these, in some
    order, as they are. -/
theorem read_tight {as : Settings α} (hkeys : (s.map (·.1)).Nodup)
    (hsame : ∀ p ∈ s, setting as p.1 = some p.2) (hlen : t.length ≤ (g.render sep s).length) (hread : g.read t = some as) :
    as.Perm s ∧ g.Written as t ∧ t.length = (g.render sep s).length := by
  have hmono := room_mono hlen
  have hrender : room (g.render sep s) = (s.map weight).sum := room_render
  have hread' := sum_le_room (readFrom_weight _ hread)
  have hperm : as.Perm s := perm_of_settings hkeys hsame (by omega)
  have hsum := (hperm.map weight).sum_eq
  rcases readFrom_weight _ hread with hw | hlt
  · refine ⟨hperm, hw, ?_⟩
    rw [hw.room, ← hrender] at hsum
    exact length_of_room hsum
  · omega

/-- Settings that are as they are in the same text are in the same order. -/
theorem Written.eq_of_render {as : Settings α} (hkeys : (s.map (·.1)).Nodup) (hs : ∀ p ∈ s, g.Plain p.1)
    (hw : g.Written as (g.render sep s)) (hperm : as.Perm s) : as = s := by
  induction s generalizing as with
  | nil => exact hperm.eq_nil
  | cons p s ih =>
    generalize ht : g.render sep (p :: s) = t at hw
    cases hw with
    | nil => exact absurd hperm.symm.eq_nil (by simp)
    | last k v _ => exact hperm.singleton_eq
    | @cons k v b as t hsolid hne hb htne hw =>
      have hmem : (k, v) ∈ p :: s := hperm.mem_iff.mp List.mem_cons_self
      -- Both texts begin with one keyword, and so with one setting.
      have hread := keyword_plain (g := g) (hs p List.mem_cons_self) (p.2 ++ if s = [] then [] else sep :: g.render sep s)
      have hread' := keyword_plain (g := g) (hs _ hmem) (v ++ b :: t)
      rw [← ht] at hread'
      obtain ⟨hk, htail⟩ := Prod.mk.inj (Option.some.inj (hread.symm.trans hread'))
      have hp : p = (k, v) := List.inj_on_of_nodup_map hkeys List.mem_cons_self hmem hk
      subst hp
      have hbehind := List.append_cancel_left htail
      split at hbehind
      · cases hbehind
      · obtain ⟨-, rfl⟩ := List.cons.inj hbehind
        rw [ih (List.nodup_cons.mp hkeys).2 (List.forall_mem_cons.mp hs).2 hw hperm.cons_inv]

/-- Settings read from themselves put together have values that can stand bare. -/
theorem solid_of_read {as : Settings α} (hkeys : (s.map (·.1)).Nodup) (hs : ∀ p ∈ s, g.Plain p.1)
    (hlast : ∀ p ∈ s.getLast?, p.2 ≠ []) (hsame : ∀ p ∈ s, setting as p.1 = some p.2)
    (hread : g.read (g.render sep s) = some as) : ∀ p ∈ s, g.Solid p.2 ∧ p.2 ≠ [] := by
  obtain ⟨hperm, hw, -⟩ := read_tight hkeys hsame le_rfl hread
  obtain rfl := hw.eq_of_render hkeys hs hperm
  exact fun p hp => ⟨hw.solid p hp, hw.nonempty hlast p hp⟩

theorem read_render (hsep : g.blank sep = true) (hs : ∀ p ∈ s, g.Plain p.1) (hv : ∀ p ∈ s, g.Solid p.2 ∧ p.2 ≠ []) :
    g.read (g.render sep s) = some s :=
  read_written (written_render hsep hv) hs

end Grammar

end BreWebServer.Lib
