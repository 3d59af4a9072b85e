/-
  BreWebServer.Lib.Tree — walking a tree of directories, leaves and symbolic links.

  A node is named by the names from the root down to it. A walk follows segments from a
  directory: `empty` and `here` stay, `up` goes to the parent (the root's is itself), a name
  goes to the child. A link met on the way is replaced by its target's segments, at most `k`
  links in all, so a cycle of links ends in failure. The result is where the walk arrived
  and how many links it could still have followed.

  Proved: a walk along two paths is the walks one after the other (`walk_append`); plain
  names down to a node that exists arrive there without following a link (`walk_names`);
  two trees that agree on the nodes a walk looks at (`trail`) give the same walk
  (`walk_congr`); where a walk arrives does not depend on how many links it may follow
  (`walk_unique`), and it arrives along names that exist (`walk_found`). A walk that fails
  for want of links is `exhausted`; what it asks of which directory are its `requests`.
-/

import Mathlib.Tactic

namespace BreWebServer.Lib

inductive Seg (ν : Type*) where
  /-- Between two separators, or behind the last: nothing is asked of the directory. -/
  | empty
  | here
  | up
  | name (n : ν)
  deriving DecidableEq

structure Target (ν : Type*) where
  fromRoot : Bool
  segs : List (Seg ν)
  deriving DecidableEq

inductive Node (ν φ : Type*) where
  | dir
  | leaf (x : φ)
  | link (t : Target ν)
  deriving DecidableEq

structure Tree (ν φ : Type*) where
  node : List ν → Option (Node ν φ)
  root_dir : node [] = some .dir
  parent_dir : ∀ p n, node (p ++ [n]) ≠ none → node p = some .dir

namespace Tree

variable {ν φ : Type*}

/-- Where a walk stops for want of segments, for want of a node, or at a link. -/
inductive Stop (ν : Type*) where
  | arrived (p : List ν)
  | fail
  | link (base : List ν) (t : Target ν) (rest : List (Seg ν))

def advance (T : Tree ν φ) : List ν → List (Seg ν) → Stop ν
  | p, [] => .arrived p
  | p, s :: rest =>
    match T.node p with
    | some .dir =>
      match s with
      | .empty | .here => advance T p rest
      | .up => advance T p.dropLast rest
      | .name n =>
        match T.node (p ++ [n]) with
        | none => .fail
        | some (.link t) => .link p t rest
        | some _ => advance T (p ++ [n]) rest
    | _ => .fail

/-- Where the walk of a link's target starts. -/
def start (base : List ν) (t : Target ν) : List ν := if t.fromRoot then [] else base

def walk (T : Tree ν φ) : Nat → List ν → List (Seg ν) → Option (List ν × Nat)
  | 0, p, segs =>
    match advance T p segs with
    | .arrived q => some (q, 0)
    | _ => none
  | k + 1, p, segs =>
    match advance T p segs with
    | .arrived q => some (q, k + 1)
    | .fail => none
    | .link base t rest => walk T k (start base t) (t.segs ++ rest)

/-! ## Composition -/

theorem advance_append (T : Tree ν φ) (a b : List (Seg ν)) : ∀ p, advance T p (a ++ b) =
    match advance T p a with
    | .arrived q => advance T q b
    | .fail => .fail
    | .link base t rest => .link base t (rest ++ b) := by
  induction a with
  | nil => intro p; rfl
  | cons s a ih =>
    intro p
    simp only [List.cons_append, advance]
    split
    · cases s with
      | empty => exact ih p
      | here => exact ih p
      | up => exact ih p.dropLast
      | name n =>
        simp only
        split
        · rfl
        · rfl
        · exact ih (p ++ [n])
    · rfl

theorem walk_append (T : Tree ν φ) (b : List (Seg ν)) : ∀ (k : Nat) (p : List ν) (a : List (Seg ν)),
    walk T k p (a ++ b) = (walk T k p a).bind fun r => walk T r.2 r.1 b := by
  intro k
  induction k with
  | zero =>
    intro p a
    simp only [walk, advance_append]
    cases h : advance T p a with
    | arrived q => simp only [Option.bind_some, walk]
    | fail => rfl
    | link base t rest => rfl
  | succ k ih =>
    intro p a
    simp only [walk, advance_append]
    cases h : advance T p a with
    | arrived q => simp only [Option.bind_some, walk]
    | fail => rfl
    | link base t rest => simp only [← List.append_assoc]; exact ih _ _

theorem walk_empty {T : Tree ν φ} {k j : Nat} {p q : List ν} (h : walk T k p [.empty] = some (q, j)) :
    p = q ∧ k = j := by
  cases hn : T.node p with
  | none => cases k <;> simp [walk, advance, hn] at h
  | some x => cases x <;> cases k <;> simp_all [walk, advance]

/-! ## Where walks arrive -/

/-- A node that is there and is no link. -/
def Real (T : Tree ν φ) (p : List ν) : Prop := ∃ x, T.node p = some x ∧ ∀ t, x ≠ .link t

theorem real_of_dir {T : Tree ν φ} {p : List ν} (h : T.node p = some .dir) : Real T p :=
  ⟨.dir, h, by intro t; simp⟩

theorem dir_above (T : Tree ν φ) (q : List ν) : ∀ {p : List ν}, T.node (p ++ q) ≠ none → q ≠ [] →
    T.node p = some .dir := by
  induction q using List.reverseRecOn with
  | nil => intro p _ h; exact absurd rfl h
  | append_singleton q n ih =>
    intro p h _
    rw [← List.append_assoc] at h
    have hd := T.parent_dir _ _ h
    by_cases hq : q = []
    · subst hq; simpa using hd
    · exact ih (by rw [hd]; simp) hq

theorem advance_names {T : Tree ν φ} (names : List ν) : ∀ {p : List ν}, Real T (p ++ names) →
    advance T p (names.map .name) = .arrived (p ++ names) := by
  induction names with
  | nil => intro p _; simp [advance]
  | cons n names ih =>
    intro p h
    have hr : Real T ((p ++ [n]) ++ names) := by simpa using h
    have hne : T.node (p ++ n :: names) ≠ none := by obtain ⟨x, hx, _⟩ := h; rw [hx]; simp
    have hd := dir_above T (n :: names) hne (by simp)
    have hn : Real T (p ++ [n]) := by
      by_cases hs : names = []
      · subst hs; simpa using hr
      · exact real_of_dir (dir_above T names (by simpa using hne) hs)
    obtain ⟨x, hx, hl⟩ := hn
    have hi := ih hr
    simp only [List.map_cons, advance, hd, hx]
    cases x with
    | link t => exact absurd rfl (hl t)
    | dir => simpa using hi
    | leaf y => simpa using hi

/-- Plain names down to a node that is no link lead to it, and follow no link. -/
theorem walk_names {T : Tree ν φ} {p names : List ν} (h : Real T (p ++ names)) (k : Nat) :
    walk T k p (names.map .name) = some (p ++ names, k) := by
  cases k <;> simp only [walk, advance_names names h]

/-! ## Following more links -/

theorem walk_succ {T : Tree ν φ} : ∀ {k : Nat} {p q : List ν} {segs : List (Seg ν)} {j : Nat},
    walk T k p segs = some (q, j) → walk T (k + 1) p segs = some (q, j + 1) := by
  intro k
  induction k with
  | zero =>
    intro p q segs j h
    simp only [walk] at h ⊢
    split at h
    · rename_i q' ha
      cases h
      rw [ha]
    · cases h
  | succ k ih =>
    intro p q segs j h
    rw [walk] at h ⊢
    split at h
    · cases h
      rfl
    · cases h
    · exact ih h

theorem walk_add {T : Tree ν φ} {k : Nat} {p q : List ν} {segs : List (Seg ν)} {j : Nat}
    (h : walk T k p segs = some (q, j)) (n : Nat) : walk T (k + n) p segs = some (q, j + n) := by
  induction n with
  | zero => exact h
  | succ n ih => exact walk_succ ih

/-- Segments lead to one node, however many links may be followed. -/
theorem walk_unique {T : Tree ν φ} {k k' : Nat} {p q q' : List ν} {segs : List (Seg ν)} {j j' : Nat}
    (h : walk T k p segs = some (q, j)) (h' : walk T k' p segs = some (q', j')) : q = q' := by
  have h1 := walk_add h k'
  have h2 := walk_add h' k
  rw [Nat.add_comm k' k, h1] at h2
  exact congrArg Prod.fst (Option.some.inj h2)

/-- A name that is some node's. -/
def Found (T : Tree ν φ) (n : ν) : Prop := ∃ p, T.node (p ++ [n]) ≠ none

theorem advance_found {T : Tree ν φ} {n : ν} (segs : List (Seg ν)) : ∀ {p q : List ν},
    advance T p segs = .arrived q → .name n ∈ segs → Found T n := by
  induction segs with
  | nil => intro p q _ hn; cases hn
  | cons s segs ih =>
    intro p q h hn
    simp only [advance] at h
    split at h
    · cases s with
      | empty => exact ih h (by simpa using hn)
      | here => exact ih h (by simpa using hn)
      | up => exact ih h (by simpa using hn)
      | name m =>
        simp only at h
        split at h
        · cases h
        · cases h
        · rename_i x hl hx
          rcases List.mem_cons.mp hn with he | hn
          · cases he
            exact ⟨p, by rw [hx]; simp⟩
          · exact ih h hn
    · cases h

/-- Up to a link the names are taken, the others are left. -/
theorem advance_left {T : Tree ν φ} {n : ν} (segs : List (Seg ν)) : ∀ {p base : List ν} {t : Target ν} {rest : List (Seg ν)},
    advance T p segs = .link base t rest → .name n ∈ segs → Found T n ∨ .name n ∈ rest := by
  induction segs with
  | nil => intro p base t rest _ hn; cases hn
  | cons s segs ih =>
    intro p base t rest h hn
    simp only [advance] at h
    split at h
    · cases s with
      | empty => exact ih h (by simpa using hn)
      | here => exact ih h (by simpa using hn)
      | up => exact ih h (by simpa using hn)
      | name m =>
        simp only at h
        split at h
        · cases h
        · rename_i t' hx
          cases h
          rcases List.mem_cons.mp hn with he | hn
          · cases he
            exact .inl ⟨p, by rw [hx]; simp⟩
          · exact .inr hn
        · rename_i x hl hx
          rcases List.mem_cons.mp hn with he | hn
          · cases he
            exact .inl ⟨p, by rw [hx]; simp⟩
          · exact ih h hn
    · cases h

/-- A walk that arrives has found every name on its way. -/
theorem walk_found {T : Tree ν φ} {n : ν} : ∀ {k : Nat} {p q : List ν} {segs : List (Seg ν)} {j : Nat},
    walk T k p segs = some (q, j) → .name n ∈ segs → Found T n := by
  intro k
  induction k with
  | zero =>
    intro p q segs j h hn
    simp only [walk] at h
    split at h
    · rename_i q' ha
      exact advance_found segs ha hn
    · cases h
  | succ k ih =>
    intro p q segs j h hn
    simp only [walk] at h
    split at h
    · rename_i q' ha
      exact advance_found segs ha hn
    · cases h
    · rename_i base t rest ha
      rcases advance_left segs ha hn with hf | hr
      · exact hf
      · exact ih h (List.mem_append.mpr (.inr hr))

/-- The walk meets a link and has none left to follow. -/
def exhausted (T : Tree ν φ) : Nat → List ν → List (Seg ν) → Bool
  | 0, p, segs =>
    match advance T p segs with
    | .link _ _ _ => true
    | _ => false
  | k + 1, p, segs =>
    match advance T p segs with
    | .link base t rest => exhausted T k (start base t) (t.segs ++ rest)
    | _ => false

def advanceRequests (T : Tree ν φ) : List ν → List (Seg ν) → List (List ν × Seg ν)
  | _, [] => []
  | p, s :: rest =>
    match T.node p with
    | some .dir =>
      (p, s) :: match s with
        | .empty | .here => advanceRequests T p rest
        | .up => advanceRequests T p.dropLast rest
        | .name n =>
          match T.node (p ++ [n]) with
          | none => []
          | some (.link _) => []
          | some _ => advanceRequests T (p ++ [n]) rest
    | _ => []

/-- What a walk asks of which directory, links followed included. -/
def requests (T : Tree ν φ) : Nat → List ν → List (Seg ν) → List (List ν × Seg ν)
  | 0, p, segs => advanceRequests T p segs
  | k + 1, p, segs =>
    advanceRequests T p segs ++
      match advance T p segs with
      | .link base t rest => requests T k (start base t) (t.segs ++ rest)
      | _ => []

/-! ## What a walk looks at -/

def advanceTrail (T : Tree ν φ) : List ν → List (Seg ν) → List (List ν)
  | _, [] => []
  | p, s :: rest =>
    p :: match T.node p with
      | some .dir =>
        match s with
        | .empty | .here => advanceTrail T p rest
        | .up => advanceTrail T p.dropLast rest
        | .name n =>
          (p ++ [n]) :: match T.node (p ++ [n]) with
            | none => []
            | some (.link _) => []
            | some _ => advanceTrail T (p ++ [n]) rest
      | _ => []

/-- The nodes a walk looks up, links followed included. -/
def trail (T : Tree ν φ) : Nat → List ν → List (Seg ν) → List (List ν)
  | 0, p, segs => advanceTrail T p segs
  | k + 1, p, segs =>
    advanceTrail T p segs ++
      match advance T p segs with
      | .link base t rest => trail T k (start base t) (t.segs ++ rest)
      | _ => []

theorem advance_congr {T U : Tree ν φ} (segs : List (Seg ν)) : ∀ {p : List ν},
    (∀ x ∈ advanceTrail T p segs, T.node x = U.node x) → advance T p segs = advance U p segs := by
  induction segs with
  | nil => intro p _; rfl
  | cons s segs ih =>
    intro p h
    simp only [advanceTrail, List.forall_mem_cons] at h
    obtain ⟨hp, h⟩ := h
    simp only [advance, ← hp]
    split
    · rename_i hd
      simp only [hd] at h
      cases s with
      | empty => exact ih h
      | here => exact ih h
      | up => exact ih h
      | name n =>
        simp only [List.forall_mem_cons] at h
        obtain ⟨hn, h⟩ := h
        simp only [← hn]
        split
        · rfl
        · rfl
        · rename_i x hl hx
          apply ih
          intro y hy
          apply h
          split
          · rename_i e; rw [hx] at e; cases e
          · rename_i t e; rw [hx] at e; exact absurd (Option.some.inj e) (hl t)
          · exact hy
    · rfl

/-- Two trees that agree on what a walk looks at give the same walk. -/
theorem walk_congr {T U : Tree ν φ} : ∀ (k : Nat) {p : List ν} {segs : List (Seg ν)},
    (∀ x ∈ trail T k p segs, T.node x = U.node x) → walk T k p segs = walk U k p segs := by
  intro k
  induction k with
  | zero => intro p segs h; simp only [walk, advance_congr segs h]
  | succ k ih =>
    intro p segs h
    simp only [trail, List.forall_mem_append] at h
    simp only [walk, ← advance_congr segs h.1]
    cases ha : advance T p segs with
    | arrived q => rfl
    | fail => rfl
    | link base t rest =>
      simp only [ha] at h
      exact ih h.2

/-! ## Listed trees -/

section Listed

variable [DecidableEq ν]

def listed (entries : List (List ν × Node ν φ)) (p : List ν) : Option (Node ν φ) :=
  if p = [] then some .dir else entries.lookup p

theorem mem_of_listed {entries : List (List ν × Node ν φ)} {p : List ν} {x : Node ν φ} (hp : p ≠ [])
    (h : listed entries p = some x) : (p, x) ∈ entries := by
  simp only [listed, hp, if_false] at h
  obtain ⟨a, b, rfl, -⟩ := List.lookup_eq_some_iff.mp h
  simp

theorem listed_cons_of_ne {e : List ν × Node ν φ} {entries : List (List ν × Node ν φ)} {p : List ν} (h : p ≠ e.1) :
    listed (e :: entries) p = listed entries p := by
  obtain ⟨k, x⟩ := e
  have hb : (p == k) = false := by simpa using h
  simp only [listed, List.lookup_cons, hb]

/-- The tree of some nodes, each listed with its parents; the root is a directory. -/
def ofList (entries : List (List ν × Node ν φ)) (h : ∀ e ∈ entries, listed entries e.1.dropLast = some .dir) :
    Tree ν φ where
  node := listed entries
  root_dir := by simp [listed]
  parent_dir := by
    intro p n hn
    obtain ⟨x, hx⟩ := Option.ne_none_iff_exists'.mp hn
    simpa using h _ (mem_of_listed (by simp) hx)

end Listed

end Tree

end BreWebServer.Lib
