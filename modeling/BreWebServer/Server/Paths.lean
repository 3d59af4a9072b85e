/-
  BreWebServer.Server.Paths — which file a request's path names.

  The static branch drops the path's first byte, whatever it is, and joins the rest to the
  resource directory with an operator that an absolute operand overrides; the system then
  reads the result up to its first NUL. A path that begins with one slash and has no NUL
  names the file its segments lead to from the resource directory. A 200 to any other path
  answers with a file of another name (`served_path_iff`): without the slash it aliases
  one (`slashless_path_served`), with two it tells where the site is installed.
-/

import BreWebServer.Server.Static

namespace BreWebServer.Server

open BreWebServer.Lib BreWebServer.Cpp BreWebServer.Http BreWebServer.Service

variable {δ : Type} (cfg : Config δ)

/-! ## Following segments -/

/-- Followed one by one from `root`, the segments lead to `q`. -/
def LeadsTo (fs : Fs) (root : List Bytes) (segments : Bytes) (q : List Bytes) : Prop :=
  ∃ k j, fs.tree.walk k root (pathSegs segments) = some (q, j)

theorem leadsTo_unique {fs : Fs} {root q q' : List Bytes} {segments : Bytes} (h : LeadsTo fs root segments q)
    (h' : LeadsTo fs root segments q') : q = q' := by
  obtain ⟨k, j, h⟩ := h
  obtain ⟨k', j', h'⟩ := h'
  exact Tree.walk_unique h h'

theorem mem_splitSlash {c : UInt8} (hc : c ≠ slash) {s : Bytes} (h : c ∈ s) : ∃ w ∈ splitSlash s, c ∈ w := by
  induction s with
  | nil => cases h
  | cons d s ih =>
    simp only [splitSlash]
    rcases List.mem_cons.mp h with rfl | h
    · rw [if_neg hc]
      split
      · exact ⟨_, List.mem_cons_self, List.mem_cons_self⟩
      · exact ⟨_, List.mem_cons_self, List.mem_cons_self⟩
    · obtain ⟨w, hw, hm⟩ := ih h
      split
      · exact ⟨w, List.mem_cons_of_mem _ hw, hm⟩
      · split
        · rename_i w' ws he
          rw [he] at hw
          rcases List.mem_cons.mp hw with rfl | hw
          · exact ⟨_, List.mem_cons_self, List.mem_cons_of_mem _ hm⟩
          · exact ⟨w, List.mem_cons_of_mem _ hw, hm⟩
        · rename_i he
          exact absurd he (splitSlash_ne_nil s)

/-- No file has a NUL in its name, so segments that lead somewhere have none. -/
theorem clear_of_leadsTo {fs : Fs} {root q : List Bytes} {segments : Bytes} (h : LeadsTo fs root segments q) :
    0 ∉ segments := by
  intro hm
  obtain ⟨k, j, hw⟩ := h
  obtain ⟨w, hw', h0⟩ := mem_splitSlash (by decide) hm
  have hseg : toSeg w = .name w := by
    have hother : ∀ v : Bytes, 0 ∉ v → w ≠ v := by
      intro v hv he
      subst he
      exact hv h0
    rw [toSeg, if_neg (hother _ (by decide)), if_neg (hother _ (by decide)), if_neg (hother _ (by decide))]
  have hname : Seg.name w ∈ pathSegs segments := by
    rw [← hseg]
    exact List.mem_map_of_mem hw'
  obtain ⟨p, hp⟩ := Tree.walk_found hw hname
  exact (fs.names p w hp).2.2.2.2.1 h0

/-! ## What a path names -/

/-- What a 200 to this request says of its path: it begins with a slash, what follows is
    no absolute path, and the file served is the one node that its segments lead to. -/
structure NamesServed (env : Env δ) (req : HttpRequest) (r : HttpResponse) : Prop where
  slashed : req.path.head? = some slash
  relative : isAbsolute (req.path.drop 1) = false
  file : ∃ root q content, canonical env.fs cfg.resourceDir = some root ∧
    LeadsTo env.fs root ((routePath req).drop 1) q ∧
    (∀ q', LeadsTo env.fs root ((routePath req).drop 1) q' → q' = q) ∧
    env.fs.tree.node q = some (.leaf (.regular content true)) ∧ r.body = content

/-- One slash at the beginning, and no NUL. -/
def PlainPath (path : Bytes) : Prop := path.head? = some slash ∧ path.tail.head? ≠ some slash ∧ 0 ∉ path

instance (path : Bytes) : Decidable (PlainPath path) := inferInstanceAs (Decidable (_ ∧ _ ∧ _))

theorem isAbsolute_iff (p : Bytes) : isAbsolute p = true ↔ p.head? = some slash := by
  simp [isAbsolute]

theorem routePath_plain {req : HttpRequest} (h : PlainPath req.path) :
    isAbsolute ((routePath req).drop 1) = false ∧ 0 ∉ (routePath req).drop 1 := by
  unfold routePath
  split
  · decide
  · obtain ⟨-, ht, h0⟩ := h
    rw [List.drop_one]
    refine ⟨?_, fun hm => h0 (List.mem_of_mem_tail hm)⟩
    rw [← Bool.not_eq_true, isAbsolute_iff]
    exact ht

/-- A NUL of the path is in what follows its first slash. -/
theorem clear_of_rest {req : HttpRequest} (hs : req.path.head? = some slash) (h : 0 ∉ (routePath req).drop 1) :
    0 ∉ req.path := by
  unfold routePath at h
  split at h
  · rename_i he
    rw [he]
    decide
  · cases hp : req.path with
    | nil => simp
    | cons c path =>
      rw [hp] at h hs
      cases hs
      simp only [List.mem_cons, not_or]
      exact ⟨by decide, h⟩

/-- A response's status and body, if there is one. -/
def shown (answer : Except Exc (HttpResponse × δ)) : Option (HttpStatus × Bytes) :=
  answer.toOption.map fun r => (r.1.status, r.1.body)

theorem answer_of_shown {x : Except Exc (HttpResponse × δ)} {status : HttpStatus} {body : Bytes}
    (h : shown x = some (status, body)) : ∃ r db, x = .ok (r, db) ∧ r.status = status ∧ r.body = body := by
  cases x with
  | error e => cases h
  | ok p =>
    cases h
    exact ⟨p.1, p.2, rfl, rfl, rfl⟩

theorem served_path_iff {sessionId : Nat} {env : Env δ} {req : HttpRequest} {r : HttpResponse} {db : δ}
    (hapi : ¬ apiPrefix <+: req.path) (ha : answer cfg sessionId env req = .ok (r, db)) (hok : r.status = .ok) :
    NamesServed cfg env req r ↔ PlainPath req.path := by
  obtain ⟨root, q, content, hroot, hq, -, hn, hb⟩ := served_static cfg hapi ha hok
  refine ⟨?_, ?_⟩
  · intro h
    obtain ⟨root', q', content', -, hleads, -⟩ := h.file
    refine ⟨h.slashed, ?_, clear_of_rest h.slashed (clear_of_leadsTo hleads)⟩
    rw [← List.drop_one, ne_eq, ← isAbsolute_iff, h.relative]
    simp
  · intro h
    obtain ⟨habs, hclear⟩ := routePath_plain h
    obtain ⟨k, hk⟩ := canonical_resolve.mp hroot
    obtain ⟨j, hj⟩ := canonical_resolve.mp hq
    rw [resolve_join cfg.resourceDir_clear hk habs, cStr_of_clear hclear] at hj
    have hleads : LeadsTo env.fs root ((routePath req).drop 1) q := ⟨k, j, hj⟩
    refine ⟨h.1, ?_, root, q, content, hroot, hleads, fun q' hq' => leadsTo_unique hq' hleads, hn, hb⟩
    rw [← Bool.not_eq_true, isAbsolute_iff, List.drop_one]
    exact h.2.1

/-- The index file under its own path. -/
theorem index_path_served : ∃ r, answer siteConfig 1 ⟨site, ()⟩ (requestFor .get (ascii "/index.html")) = .ok (r, ()) ∧
    (NamesServed siteConfig ⟨site, ()⟩ (requestFor .get (ascii "/index.html")) r ↔ PlainPath (ascii "/index.html")) := by
  obtain ⟨r, db, ha, hok, -⟩ := answer_of_shown
    (show shown (answer siteConfig 1 ⟨site, ()⟩ (requestFor .get (ascii "/index.html"))) = some (.ok, ascii "hi") by decide)
  exact ⟨r, ha, served_path_iff siteConfig (by decide) ha hok⟩

def slashless : Bytes := ascii "GET Xindex.html H\r\n\r\n"

def doubled : Bytes := ascii "GET //srv/www/index.html H\r\n\r\n"

/-- Two paths that are no names of the index file, in requests that `Parse` accepts, are
    answered with its content. -/
theorem slashless_path_served :
    (parse .fresh slashless).1 = .returned true ∧ (parse .fresh slashless).2.1.path = ascii "Xindex.html" ∧
    (parse .fresh doubled).1 = .returned true ∧ (parse .fresh doubled).2.1.path = ascii "//srv/www/index.html" ∧
    (∃ r db, answer siteConfig 1 ⟨site, ()⟩ (parse .fresh slashless).2.1 = .ok (r, db) ∧ r.status = .ok ∧
      r.body = ascii "hi" ∧ ¬ NamesServed siteConfig ⟨site, ()⟩ (parse .fresh slashless).2.1 r) ∧
    ∃ r db, answer siteConfig 1 ⟨site, ()⟩ (parse .fresh doubled).2.1 = .ok (r, db) ∧ r.status = .ok ∧
      r.body = ascii "hi" ∧ ¬ NamesServed siteConfig ⟨site, ()⟩ (parse .fresh doubled).2.1 r := by
  refine ⟨by decide, by decide, by decide, by decide, ?_, ?_⟩
  · obtain ⟨r, db, ha, hok, hb⟩ := answer_of_shown
      (show shown (answer siteConfig 1 ⟨site, ()⟩ (parse .fresh slashless).2.1) = some (.ok, ascii "hi") by decide)
    refine ⟨r, db, ha, hok, hb, ?_⟩
    intro h
    exact absurd h.slashed (by decide)
  · obtain ⟨r, db, ha, hok, hb⟩ := answer_of_shown
      (show shown (answer siteConfig 1 ⟨site, ()⟩ (parse .fresh doubled).2.1) = some (.ok, ascii "hi") by decide)
    refine ⟨r, db, ha, hok, hb, ?_⟩
    intro h
    exact absurd h.relative (by decide)

end BreWebServer.Server
