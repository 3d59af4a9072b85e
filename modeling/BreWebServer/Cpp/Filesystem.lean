/-
  BreWebServer.Cpp.Filesystem — what the program uses of `std::filesystem` on a POSIX
  system.

  A file system is a tree of directories, regular files, other entries and symbolic links,
  seen from a working directory; a directory that may not be searched shows nothing that is
  in it. `resolve` follows a path string segment by segment; the operating system reads the
  string up to its first NUL, refuses the empty path, and follows at most 40 links, as
  Linux does. `canonical` is the name of the node reached, or an exception (`none`) when
  there is none. `fileStatus` asks the system for the path as it stands, which it may refuse
  (`refused`): then it throws, while a path that leads nowhere is just missing.

  `canonical` goes down from the root by the names it has found so far, and takes `.` and `..`
  as text. So a path may be refused that it resolves: one of 4096 bytes, or one that asks
  for `..` in a directory that may not be searched.
-/

import BreWebServer.Lib.Tree
import BreWebServer.Cpp.Text

namespace BreWebServer.Cpp

open BreWebServer.Lib

inductive Entry where
  | regular (content : Bytes) (openable : Bool)
  | special
  deriving DecidableEq

/-- What a path can lead to. -/
@[elab_as_elim]
theorem node_cases {motive : Option (Node Bytes Entry) → Prop} (x : Option (Node Bytes Entry)) (missing : motive none)
    (dir : motive (some .dir)) (link : ∀ t, motive (some (.link t))) (special : motive (some (.leaf .special)))
    (regular : ∀ content openable, motive (some (.leaf (.regular content openable)))) : motive x :=
  match x with
  | none => missing
  | some .dir => dir
  | some (.link t) => link t
  | some (.leaf .special) => special
  | some (.leaf (.regular content openable)) => regular content openable

/-- The longest name and the longest path. -/
def nameMax : Nat := 255
def pathMax : Nat := 4095

/-- What a directory entry can be called. -/
abbrev GoodName (n : Bytes) : Prop :=
  n ≠ [] ∧ n ≠ [dot] ∧ n ≠ [dot, dot] ∧ slash ∉ n ∧ 0 ∉ n ∧ n.length ≤ nameMax

structure Fs where
  tree : Tree Bytes Entry
  /-- The directories that may not be searched. -/
  locked : List Bytes → Bool
  cwd : List Bytes
  cwd_dir : tree.node cwd = some .dir
  names : ∀ p n, tree.node (p ++ [n]) ≠ none → GoodName n
  locked_dark : ∀ p n, locked p = true → tree.node (p ++ [n]) = none

/-- The file system of some listed nodes, all its directories searchable, seen from its root. -/
def Fs.ofList (entries : List (List Bytes × Node Bytes Entry))
    (h : ∀ e ∈ entries, Tree.listed entries e.1.dropLast = some .dir) (hn : ∀ e ∈ entries, ∀ n ∈ e.1, GoodName n) :
    Fs where
  tree := Tree.ofList entries h
  locked := fun _ => false
  cwd := []
  cwd_dir := (Tree.ofList entries h).root_dir
  names := by
    intro p n hp
    obtain ⟨x, hx⟩ := Option.ne_none_iff_exists'.mp hp
    exact hn _ (Tree.mem_of_listed (by simp) hx) n (by simp)
  locked_dark := by simp

/-! ## Path strings -/

def splitSlash : Bytes → List Bytes
  | [] => [[]]
  | c :: s =>
    if c = slash then [] :: splitSlash s
    else
      match splitSlash s with
      | w :: ws => (c :: w) :: ws
      | [] => [[c]]

def toSeg (w : Bytes) : Seg Bytes :=
  if w = [] then .empty else if w = [dot] then .here else if w = [dot, dot] then .up else .name w

def pathSegs (p : Bytes) : List (Seg Bytes) := (splitSlash p).map toSeg

def isAbsolute (p : Bytes) : Bool := p.head? == some slash

/-- `path(p) / q`: an absolute `q` replaces `p`; a separator is added unless `p` is empty
    or ends in one. -/
def joinPath (p q : Bytes) : Bytes :=
  if isAbsolute q then q
  else if p = [] ∨ p.getLast? = some slash then p ++ q
  else p ++ slash :: q

/-- `path::c_str()` as the system calls read it. -/
def cStr (p : Bytes) : Bytes := p.takeWhile (· != 0)

/-- `path::extension` of a file name: from its last dot on, unless that is its first byte. -/
def extension (name : Bytes) : Bytes :=
  let tail := name.reverse.takeWhile (· != dot)
  if name = [dot, dot] ∨ name.length ≤ tail.length + 1 then [] else dot :: tail.reverse

/-! ## Resolution -/

def maxLinks : Nat := 40

def walkFrom (fs : Fs) (p : Bytes) : List Bytes := if isAbsolute p then [] else fs.cwd

def resolve (fs : Fs) (p : Bytes) : Option (List Bytes × Nat) :=
  if cStr p = [] then none else fs.tree.walk maxLinks (walkFrom fs p) (pathSegs (cStr p))

def canonical (fs : Fs) (p : Bytes) : Option (List Bytes) := (resolve fs p).map (·.1)

/-- The elements of a canonical path: the root directory and the names below it. -/
def pathElements (p : List Bytes) : List Bytes := [slash] :: p

def isRegularFile (fs : Fs) (p : List Bytes) : Bool :=
  match fs.tree.node p with
  | some (.leaf (.regular _ _)) => true
  | _ => false

def fileExists (fs : Fs) (p : List Bytes) : Bool := (fs.tree.node p).isSome

/-- A directory is asked for what it does not let one look up, or for too long a name. -/
def denied (fs : Fs) (ask : List Bytes × Seg Bytes) : Bool :=
  match ask.2 with
  | .empty => false
  | .here | .up => fs.locked ask.1
  | .name n => fs.locked ask.1 || nameMax < n.length

/-- The system refuses to follow the path: it is too long, has too many links or too long a
    name on its way, or leads through a directory that may not be searched. -/
def refused (fs : Fs) (p : Bytes) : Bool :=
  cStr p != [] && (pathMax < (cStr p).length || fs.tree.exhausted maxLinks (walkFrom fs p) (pathSegs (cStr p)) ||
    (fs.tree.requests maxLinks (walkFrom fs p) (pathSegs (cStr p))).any (denied fs))

/-- `status` of a path: the node it leads to, none for a missing file or a file taken for a
    directory. -/
def fileStatus (fs : Fs) (p : Bytes) : Except Exc (Option (Node Bytes Entry)) :=
  if refused fs p then .error .filesystemError else .ok ((canonical fs p).bind fs.tree.node)

/-- What an `std::ifstream` on a regular file reads, if it opens. -/
def readFile (fs : Fs) (p : List Bytes) : Option Bytes :=
  match fs.tree.node p with
  | some (.leaf (.regular content true)) => some content
  | _ => none

/-- `std::mismatch` on two ranges, as what is left of each. -/
def mismatch {α : Type*} [DecidableEq α] : List α → List α → List α × List α
  | a :: as, b :: bs => if a = b then mismatch as bs else (a :: as, b :: bs)
  | as, bs => (as, bs)

/-! ## What they do -/

/-- The loop of `std::mismatch` decides the component-wise prefix relation. -/
theorem mismatch_fst_nil {α : Type*} [DecidableEq α] (a b : List α) : (mismatch a b).1 = [] ↔ a <+: b := by
  induction a generalizing b with
  | nil => simp [mismatch]
  | cons x a ih =>
    cases b with
    | nil => simp [mismatch]
    | cons y b =>
      simp only [mismatch, List.cons_prefix_cons]
      split
      · simp [*]
      · simp [*]

theorem splitSlash_ne_nil (p : Bytes) : splitSlash p ≠ [] := by
  cases p with
  | nil => simp [splitSlash]
  | cons c s =>
    simp only [splitSlash]
    repeat' split
    all_goals simp

theorem splitSlash_append (a b : Bytes) : splitSlash (a ++ slash :: b) = splitSlash a ++ splitSlash b := by
  induction a with
  | nil => simp [splitSlash]
  | cons c a ih =>
    simp only [List.cons_append, splitSlash]
    by_cases h : c = slash
    · simp [h, ih]
    · simp only [h, if_false, ih]
      cases hs : splitSlash a with
      | nil => exact absurd hs (splitSlash_ne_nil a)
      | cons w ws => simp

theorem pathSegs_append (a b : Bytes) : pathSegs (a ++ slash :: b) = pathSegs a ++ pathSegs b := by
  simp [pathSegs, splitSlash_append]

theorem pathSegs_name {n : Bytes} (h : GoodName n) : pathSegs n = [.name n] := by
  obtain ⟨h1, h2, h3, h4, -, -⟩ := h
  have hs : splitSlash n = [n] := by
    clear h1 h2 h3
    induction n with
    | nil => rfl
    | cons c n ih =>
      simp only [List.mem_cons, not_or] at h4
      simp [splitSlash, Ne.symm h4.1, ih h4.2]
  simp [pathSegs, hs, toSeg, h1, h2, h3]

/-- The plain relative path of some names. -/
def relPath : List Bytes → Bytes
  | [] => []
  | [n] => n
  | n :: m :: names => n ++ slash :: relPath (m :: names)

theorem pathSegs_relPath (names : List Bytes) (hne : names ≠ []) (h : ∀ n ∈ names, GoodName n) :
    pathSegs (relPath names) = names.map .name := by
  induction names with
  | nil => exact absurd rfl hne
  | cons n names ih =>
    cases names with
    | nil => exact pathSegs_name (h n (by simp))
    | cons m names =>
      rw [relPath, pathSegs_append, pathSegs_name (h n (by simp)), ih (by simp) (fun x hx => h x (by simp [hx]))]
      rfl

theorem cStr_append {a : Bytes} (h : 0 ∉ a) (b : Bytes) : cStr (a ++ b) = a ++ cStr b := by
  unfold cStr
  rw [List.takeWhile_append_of_pos]
  intro c hc
  simpa using fun e : c = 0 => h (e ▸ hc)

theorem cStr_of_clear {a : Bytes} (h : 0 ∉ a) : cStr a = a := by
  simpa [cStr] using cStr_append h []

theorem relPath_clear (names : List Bytes) (h : ∀ n ∈ names, GoodName n) : 0 ∉ relPath names := by
  induction names with
  | nil => simp [relPath]
  | cons n names ih =>
    cases names with
    | nil => exact (h n (by simp)).2.2.2.2.1
    | cons m names =>
      simp only [relPath, List.mem_append, List.mem_cons, not_or]
      exact ⟨(h n (by simp)).2.2.2.2.1, by decide, ih fun x hx => h x (by simp [hx])⟩

theorem isAbsolute_append {a : Bytes} (h : a ≠ []) (b : Bytes) : isAbsolute (a ++ b) = isAbsolute a := by
  cases a with
  | nil => exact absurd rfl h
  | cons c a => rfl

theorem relPath_head (n : Bytes) (names : List Bytes) (h : n ≠ []) : (relPath (n :: names)).head? = n.head? := by
  cases names with
  | nil => rfl
  | cons m names =>
    cases n with
    | nil => exact absurd rfl h
    | cons c n => rfl

theorem canonical_resolve {fs : Fs} {p : Bytes} {q : List Bytes} :
    canonical fs p = some q ↔ ∃ k, resolve fs p = some (q, k) := by
  simp [canonical]

/-- A relative path joined to another is walked from where that one leads. -/
theorem resolve_join {fs : Fs} {d r : Bytes} {root : List Bytes} {k : Nat} (hd : 0 ∉ d)
    (hroot : resolve fs d = some (root, k)) (hr : isAbsolute r = false) :
    resolve fs (joinPath d r) = fs.tree.walk k root (pathSegs (cStr r)) := by
  have hne : d ≠ [] := by rintro rfl; simp [resolve, cStr] at hroot
  simp only [resolve, cStr_of_clear hd, hne, if_false] at hroot
  have hj : joinPath d r = if d.getLast? = some slash then d ++ r else d ++ slash :: r := by
    simp [joinPath, hr, hne]
  rw [hj]
  split
  · rename_i hl
    -- A directory written with its slash: that slash is the separator.
    obtain ⟨d', rfl⟩ : ∃ d', d = d' ++ [slash] := by
      rcases List.eq_nil_or_concat d with rfl | ⟨d', c, rfl⟩
      · exact absurd rfl hne
      · rw [List.concat_eq_append] at hl ⊢
        simp only [List.getLast?_append, List.getLast?_singleton, Option.some_or, Option.some.injEq] at hl
        exact ⟨d', by rw [hl]⟩
    have hc : cStr (d' ++ [slash] ++ r) = d' ++ slash :: cStr r := by rw [cStr_append hd]; simp
    have hw : walkFrom fs (d' ++ [slash] ++ r) = walkFrom fs (d' ++ [slash]) := by
      unfold walkFrom; rw [isAbsolute_append hne]
    have hs : pathSegs (d' ++ [slash]) = pathSegs d' ++ [.empty] := pathSegs_append d' []
    rw [hs, Tree.walk_append] at hroot
    obtain ⟨⟨q, j⟩, hq, hh⟩ := Option.bind_eq_some_iff.mp hroot
    obtain ⟨rfl, rfl⟩ := Tree.walk_empty hh
    unfold resolve
    rw [if_neg (by rw [hc]; simp), hc, hw, pathSegs_append, Tree.walk_append, hq]
    rfl
  · have hc : cStr (d ++ slash :: r) = d ++ slash :: cStr r := by
      rw [cStr_append hd]
      simp [cStr, slash]
    have hw : walkFrom fs (d ++ slash :: r) = walkFrom fs d := by
      unfold walkFrom; rw [isAbsolute_append hne]
    unfold resolve
    rw [if_neg (by rw [hc]; simp), hc, hw, pathSegs_append, Tree.walk_append, hroot]
    rfl

end BreWebServer.Cpp
