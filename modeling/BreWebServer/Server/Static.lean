/-
  BreWebServer.Server.Static — which files the static branch of `HandleRequest` serves.

  (1) Containment (`static_files_stay_inside`): whatever the path, a 200 carries a regular
  file whose canonical path has the canonical resource directory as a component-wise
  prefix; and every openable regular file below that directory is served under its plain
  relative path.

  (2) What a response depends on (`inside_requests_blind_outside`): a request below `/api/`,
  and one whose path, links included, looks up nothing beside the resource directory, what
  is below it and what is above it, is answered from what is below it alone. Others are not
  (`existence_outside_leaks`): a path that leaves is answered 404 when it names nothing
  and 403 when it names something.
-/

import BreWebServer.Server.HandleRequest

namespace BreWebServer.Server

open BreWebServer.Lib BreWebServer.Cpp BreWebServer.Http BreWebServer.Service

variable {δ : Type} (cfg : Config δ)

/-! ## What the static branch answers -/

/-- The response once the file's canonical path is known to lie inside. -/
def fileResponse (fs : Fs) (q : List Bytes) : HttpResponse :=
  match fs.tree.node q with
  | some (.leaf (.regular content true)) =>
    ((HttpResponse.new.setBody content).setContentType (getContentType (extension (q.getLast?.getD [])))).setStatus .ok
  | some (.leaf (.regular _ false)) => HttpResponse.makeErrorResponse .internalServerError []
  | _ => HttpResponse.makeErrorResponse .notFound []

/-- What the static branch answers: 404 when the path cannot be resolved, 403 when it
    leads outside, and otherwise what `fileResponse` finds there. -/
theorem serveStatic_eq {fs : Fs} {root : List Bytes} (hroot : canonical fs cfg.resourceDir = some root)
    (keepAlive : Bool) {path : Bytes} (hp : path ≠ []) :
    serveStatic cfg fs keepAlive path = .ok (
      match canonical fs (joinPath cfg.resourceDir (path.drop 1)) with
      | none => HttpResponse.makeErrorResponse .notFound []
      | some q =>
        (if root <+: q then fileResponse fs q else HttpResponse.makeErrorResponse .forbidden []).setKeepAlive keepAlive) := by
  simp only [serveStatic, hp, if_false, hroot]
  cases hc : canonical fs (joinPath cfg.resourceDir (path.drop 1)) with
  | none => rfl
  | some q =>
    have hm : (mismatch (pathElements root) (pathElements q)).1 = [] ↔ root <+: q := by
      rw [mismatch_fst_nil, pathElements, pathElements, List.cons_prefix_cons]
      simp
    simp only [ne_eq, hm]
    by_cases hq : root <+: q
    · simp only [hq, not_true_eq_false, if_false, if_true]
      congr 2
      unfold fileResponse fileExists isRegularFile HttpResponse.loadFile readFile
      generalize fs.tree.node q = x
      cases x using node_cases with
      | regular content openable => cases openable <;> simp
      | _ => simp
    · simp [hq]

theorem fileResponse_ok {fs : Fs} {q : List Bytes} (h : (fileResponse fs q).status = .ok) :
    ∃ content, fs.tree.node q = some (.leaf (.regular content true)) ∧ (fileResponse fs q).body = content := by
  unfold fileResponse at h ⊢
  split at h
  · rename_i content hn
    exact ⟨content, hn, rfl⟩
  · cases h
  · cases h

/-! ## (1) Containment -/

theorem fs_names {fs : Fs} {root rel : List Bytes} {x : Node Bytes Entry} (h : fs.tree.node (root ++ rel) = some x) :
    ∀ n ∈ rel, GoodName n := by
  intro n hn
  obtain ⟨a, b, rfl⟩ := List.append_of_mem hn
  apply fs.names (root ++ a) n
  by_cases hb : b = []
  · subst hb
    simp [h]
  · rw [Tree.dir_above fs.tree b (by simp [h]) hb]
    simp

/-- A request for the plain relative path of a file below the resource directory reaches
    that file. -/
theorem canonical_plain {fs : Fs} {root rel : List Bytes} (hroot : canonical fs cfg.resourceDir = some root)
    {content : Bytes} {openable : Bool}
    (hf : fs.tree.node (root ++ rel) = some (.leaf (.regular content openable))) (hrel : rel ≠ []) :
    canonical fs (joinPath cfg.resourceDir (relPath rel)) = some (root ++ rel) := by
  obtain ⟨k, hk⟩ := canonical_resolve.mp hroot
  have hnames := fs_names hf
  have habs : isAbsolute (relPath rel) = false := by
    cases rel with
    | nil => exact absurd rfl hrel
    | cons n rel =>
      obtain ⟨hne, -, -, hs, -⟩ := hnames n (by simp)
      unfold isAbsolute
      rw [relPath_head n rel hne]
      cases n with
      | nil => exact absurd rfl hne
      | cons c n =>
        simp only [List.mem_cons, not_or] at hs
        simpa using fun e : c = slash => hs.1 e.symm
  have hreal : fs.tree.Real (root ++ rel) := ⟨_, hf, by intro t; simp⟩
  refine canonical_resolve.mpr ⟨k, ?_⟩
  rw [resolve_join cfg.resourceDir_clear hk habs, cStr_of_clear (relPath_clear rel hnames),
    pathSegs_relPath rel hrel hnames]
  exact Tree.walk_names hreal k

theorem api_routePath (req : HttpRequest) : apiPrefix <+: routePath req ↔ apiPrefix <+: req.path := by
  unfold routePath
  split
  · rename_i h
    rw [h]
    exact ⟨fun h => absurd h (by decide), fun h => absurd h (by decide)⟩
  · rfl

theorem routePath_ne_nil {req : HttpRequest} : routePath req = [] ↔ req.path = [] := by
  unfold routePath
  split
  · rename_i h
    rw [h]
    decide
  · rfl

/-- A plain path is an API path only below a component called `api`. -/
theorem api_plain {n : Bytes} {rel : List Bytes} (hn : GoodName n) (h : apiPrefix <+: slash :: relPath (n :: rel)) :
    n = ascii "api" := by
  have hp : ascii "api" ++ [slash] <+: relPath (n :: rel) := (List.cons_prefix_cons.mp h).2
  have hs : slash ∉ n := hn.2.2.2.1
  have hcut : ∀ tail : Bytes, cut [slash] (n ++ slash :: tail) = some (n, tail) := by
    intro tail
    exact cut_one_iff.mpr ⟨rfl, hs⟩
  obtain ⟨t, ht⟩ := hp
  have hapi : cut [slash] (relPath (n :: rel)) = some (ascii "api", t) := by
    rw [← ht]
    exact cut_one_iff.mpr ⟨by simp, by decide⟩
  cases rel with
  | nil =>
    have hnone : cut [slash] n = none := cut_one_none_iff.mpr hs
    rw [relPath, hnone] at hapi
    cases hapi
  | cons m rel =>
    rw [relPath, hcut] at hapi
    simp only [Option.some.injEq, Prod.mk.injEq] at hapi
    exact hapi.1

/-- What stands behind a 200 outside `/api/`. -/
theorem served_static {sessionId : Nat} {env : Env δ} {req : HttpRequest} {r : HttpResponse} {db : δ}
    (hapi : ¬ apiPrefix <+: req.path) (ha : answer cfg sessionId env req = .ok (r, db)) (hok : r.status = .ok) :
    ∃ root q content, canonical env.fs cfg.resourceDir = some root ∧
      canonical env.fs (joinPath cfg.resourceDir ((routePath req).drop 1)) = some q ∧ root <+: q ∧
      env.fs.tree.node q = some (.leaf (.regular content true)) ∧ r.body = content := by
  rw [← api_routePath] at hapi
  simp only [answer, hapi, if_false] at ha
  by_cases hp : routePath req = []
  · simp [hp, serveStatic, Except.map] at ha
  · cases hroot : canonical env.fs cfg.resourceDir with
    | none => simp [hp, serveStatic, hroot, Except.map] at ha
    | some root =>
      simp only [serveStatic_eq cfg hroot _ hp, Except.map] at ha
      cases hc : canonical env.fs (joinPath cfg.resourceDir ((routePath req).drop 1)) with
      | none =>
        rw [hc] at ha
        cases ha
        cases hok
      | some q =>
        rw [hc] at ha
        by_cases hq : root <+: q
        · simp only [hq, if_true] at ha
          cases ha
          obtain ⟨content, hn, hb⟩ := fileResponse_ok hok
          exact ⟨root, q, content, rfl, rfl, hq, hn, hb⟩
        · simp only [hq, if_false] at ha
          cases ha
          cases hok

/-- The route of a plain relative path is the path itself. -/
theorem routePath_relPath {req : HttpRequest} {rel : List Bytes} (hrel : rel ≠ []) (hnames : ∀ n ∈ rel, GoodName n)
    (hpath : req.path = slash :: relPath rel) : routePath req = slash :: relPath rel := by
  unfold routePath
  rw [if_neg, hpath]
  intro h
  rw [hpath] at h
  have h0 : relPath rel = [] := (List.cons.inj h).2
  cases rel with
  | nil => exact hrel rfl
  | cons n rel =>
    have hn := relPath_head n rel (hnames n (by simp)).1
    rw [h0] at hn
    exact (hnames n (by simp)).1 (List.head?_eq_none_iff.mp hn.symm)

theorem static_files_stay_inside (sessionId : Nat) (env : Env δ) (req : HttpRequest) {root : List Bytes}
    (hroot : canonical env.fs cfg.resourceDir = some root) (hdir : env.fs.tree.node root = some .dir) :
    (¬ apiPrefix <+: req.path → ∀ r db, answer cfg sessionId env req = .ok (r, db) → r.status = .ok →
      ∃ q content, canonical env.fs (joinPath cfg.resourceDir ((routePath req).drop 1)) = some q ∧ root <+: q ∧
        env.fs.tree.node q = some (.leaf (.regular content true)) ∧ r.body = content) ∧
    (∀ rel content, env.fs.tree.node (root ++ rel) = some (.leaf (.regular content true)) →
      rel.head? ≠ some (ascii "api") → req.path = slash :: relPath rel →
      ∃ r, answer cfg sessionId env req = .ok (r, env.db) ∧ r.status = .ok ∧ r.body = content) := by
  constructor
  · intro hapi r db ha hok
    obtain ⟨root', q, content, hroot', hq, hin, hn, hb⟩ := served_static cfg hapi ha hok
    rw [hroot] at hroot'
    cases hroot'
    exact ⟨q, content, hq, hin, hn, hb⟩
  · intro rel content hf hhead hpath
    have hrel : rel ≠ [] := by
      intro h
      subst h
      rw [List.append_nil, hdir] at hf
      cases hf
    have hnames := fs_names hf
    have hroute := routePath_relPath hrel hnames hpath
    have hapi : ¬ apiPrefix <+: slash :: relPath rel := by
      intro h
      cases rel with
      | nil => exact hrel rfl
      | cons n rel => exact hhead (by rw [List.head?_cons, api_plain (hnames n (by simp)) h])
    have hc := canonical_plain cfg hroot hf hrel
    refine ⟨(fileResponse env.fs (root ++ rel)).setKeepAlive (wantsKeepAlive req), ?_, ?_, ?_⟩
    · simp only [answer, hroute, hapi, if_false]
      rw [serveStatic_eq cfg hroot _ (by simp)]
      simp only [List.drop_one, List.tail_cons, hc, List.prefix_append, if_true]
      rfl
    · simp only [fileResponse, hf]
      rfl
    · simp only [fileResponse, hf]
      rfl

def siteEntries : List (List Bytes × Node Bytes Entry) :=
  [([ascii "srv"], .dir),
    ([ascii "srv", ascii "www"], .dir),
    ([ascii "srv", ascii "www", ascii "index.html"], .leaf (.regular (ascii "hi") true))]

/-- `/srv/www/index.html` alone. -/
def site : Fs := Fs.ofList siteEntries (by decide) (by decide)

/-- With a sibling directory whose name begins alike, and a link to it from inside. -/
def siteLinked : Fs :=
  Fs.ofList
    (siteEntries ++
      [([ascii "srv", ascii "www", ascii "out"], .link ⟨false, [.up, .name (ascii "www2")]⟩),
        ([ascii "srv", ascii "www2"], .dir),
        ([ascii "srv", ascii "www2", ascii "key"], .leaf (.regular (ascii "k") true))])
    (by decide) (by decide)

/-- A server of `/srv/www` without a database. -/
def siteConfig : Config Unit where
  resourceDir := ascii "/srv/www"
  resourceDir_clear := by decide
  postgres := false
  service := ⟨fun _ => true, fun db _ _ _ => (false, db), fun db _ _ => (none, db), fun db _ _ => ([], db), fun db _ => (none, db)⟩
  render := fun _ => ascii "\x7b\x7d"
  order := .listed

def siteRoot : List Bytes := [ascii "srv", ascii "www"]

def requestFor (method : HttpMethod) (path : Bytes) : HttpRequest := { HttpRequest.fresh with method, path }

theorem site_stays_inside :
    (∃ r, answer siteConfig 1 ⟨siteLinked, ()⟩ (requestFor .get (ascii "/index.html")) = .ok (r, ()) ∧
      r.status = .ok ∧ r.body = ascii "hi") ∧
    ∀ r db, answer siteConfig 1 ⟨siteLinked, ()⟩ (requestFor .get (ascii "/out/key")) = .ok (r, db) → r.status ≠ .ok := by
  have hroot : canonical siteLinked siteConfig.resourceDir = some siteRoot := by decide
  have h := fun path => static_files_stay_inside siteConfig 1 ⟨siteLinked, ()⟩ (requestFor .get path) hroot (by decide)
  constructor
  · exact (h _).2 [ascii "index.html"] (ascii "hi") (by decide) (by decide) rfl
  · intro r db ha hok
    obtain ⟨q, content, hq, hin, -, -⟩ := (h (ascii "/out/key")).1 (by decide) r db ha hok
    have hc : canonical siteLinked (ascii "/srv/www/out/key") = some [ascii "srv", ascii "www2", ascii "key"] := by decide
    rw [show joinPath siteConfig.resourceDir _ = ascii "/srv/www/out/key" by decide, hc] at hq
    cases hq
    exact absurd hin (by decide)

/-! ## (2) What a response depends on -/

/-- The nodes that resolving the rest of a path looks up, from a resource directory `root`
    at which `k` more links may be followed. -/
def lookups (fs : Fs) (root : List Bytes) (k : Nat) (rest : Bytes) : List (List Bytes) :=
  if isAbsolute rest then fs.tree.trail maxLinks [] (pathSegs (cStr rest))
  else fs.tree.trail k root (pathSegs (cStr rest))

/-- Neither beside nor outside `root`: it, what is below it, or what is above it. -/
abbrev Along (root x : List Bytes) : Prop := root <+: x ∨ x <+: root

theorem along_congr {fs₁ fs₂ : Fs} {root : List Bytes} (hdir : fs₁.tree.node root = some .dir)
    (hagree : ∀ x, root <+: x → fs₁.tree.node x = fs₂.tree.node x) {x : List Bytes} (h : Along root x) :
    fs₁.tree.node x = fs₂.tree.node x := by
  rcases h with h | h
  · exact hagree x h
  · obtain ⟨q, rfl⟩ := h
    by_cases hq : q = []
    · subst hq
      exact hagree x (by simp)
    · have hd₂ : fs₂.tree.node (x ++ q) = some .dir := by rw [← hagree _ (List.prefix_refl _)]; exact hdir
      rw [Tree.dir_above fs₁.tree q (by simp [hdir]) hq, Tree.dir_above fs₂.tree q (by simp [hd₂]) hq]

theorem canonical_congr {fs₁ fs₂ : Fs} {d rest : Bytes} {root : List Bytes} {k : Nat} (hd : 0 ∉ d)
    (h₁ : resolve fs₁ d = some (root, k)) (h₂ : resolve fs₂ d = some (root, k)) (hdir : fs₁.tree.node root = some .dir)
    (hagree : ∀ x, root <+: x → fs₁.tree.node x = fs₂.tree.node x)
    (hin : ∀ x ∈ lookups fs₁ root k rest, Along root x) :
    canonical fs₁ (joinPath d rest) = canonical fs₂ (joinPath d rest) := by
  have hnode : ∀ x ∈ lookups fs₁ root k rest, fs₁.tree.node x = fs₂.tree.node x :=
    fun x hx => along_congr hdir hagree (hin x hx)
  unfold canonical
  congr 1
  by_cases habs : isAbsolute rest
  · simp only [lookups, habs, if_true] at hnode
    simp only [joinPath, habs, if_true, resolve, walkFrom]
    rw [Tree.walk_congr maxLinks hnode]
  · have habs' : isAbsolute rest = false := by simpa using habs
    simp only [lookups, habs] at hnode
    rw [resolve_join hd h₁ habs', resolve_join hd h₂ habs', Tree.walk_congr k hnode]

/-- Where what a path looks up lies along the resource directory, the static branch sees that directory alone. -/
theorem serveStatic_congr {fs₁ fs₂ : Fs} {root : List Bytes} {k : Nat} {path : Bytes}
    (h₁ : resolve fs₁ cfg.resourceDir = some (root, k)) (h₂ : resolve fs₂ cfg.resourceDir = some (root, k))
    (hdir : fs₁.tree.node root = some .dir) (hagree : ∀ x, root <+: x → fs₁.tree.node x = fs₂.tree.node x)
    (hin : ∀ x ∈ lookups fs₁ root k (path.drop 1), Along root x) (keepAlive : Bool) :
    serveStatic cfg fs₁ keepAlive path = serveStatic cfg fs₂ keepAlive path := by
  by_cases hp : path = []
  · simp only [serveStatic, hp, if_true]
  · rw [serveStatic_eq cfg (canonical_resolve.mpr ⟨k, h₁⟩) _ hp, serveStatic_eq cfg (canonical_resolve.mpr ⟨k, h₂⟩) _ hp,
      ← canonical_congr cfg.resourceDir_clear h₁ h₂ hdir hagree hin]
    cases hc : canonical fs₁ (joinPath cfg.resourceDir (path.drop 1)) with
    | none => rfl
    | some q =>
      by_cases hq : root <+: q
      · simp only [hq, if_true, fileResponse, hagree q hq]
      · simp only [hq, if_false]

theorem inside_requests_blind_outside (sessionId : Nat) (db : δ) (req : HttpRequest) {fs₁ fs₂ : Fs} {root : List Bytes}
    {k : Nat} (h₁ : resolve fs₁ cfg.resourceDir = some (root, k)) (h₂ : resolve fs₂ cfg.resourceDir = some (root, k))
    (hdir : fs₁.tree.node root = some .dir) (hagree : ∀ x, root <+: x → fs₁.tree.node x = fs₂.tree.node x) :
    ((¬ apiPrefix <+: req.path → ∀ x ∈ lookups fs₁ root k ((routePath req).drop 1), Along root x) →
      respond cfg sessionId ⟨fs₁, db⟩ req = respond cfg sessionId ⟨fs₂, db⟩ req) ∧
    (¬ apiPrefix <+: req.path → req.path ≠ [] → ∃ r, answer cfg sessionId ⟨fs₁, db⟩ req = .ok (r, db) ∧
      (canonical fs₁ (joinPath cfg.resourceDir ((routePath req).drop 1)) = none → r.status = .notFound) ∧
      (∀ q, canonical fs₁ (joinPath cfg.resourceDir ((routePath req).drop 1)) = some q → ¬ root <+: q →
        r.status = .forbidden)) := by
  constructor
  · intro hin
    unfold respond
    congr 1
    by_cases hapi : apiPrefix <+: routePath req
    · simp only [answer, hapi, if_true]
    · simp only [answer, hapi, if_false]
      rw [serveStatic_congr cfg h₁ h₂ hdir hagree (hin fun h => hapi ((api_routePath req).mpr h))]
  · intro hapi hpath
    have hp : routePath req ≠ [] := by
      unfold routePath
      split
      · decide
      · exact hpath
    rw [← api_routePath] at hapi
    simp only [answer, hapi, if_false, serveStatic_eq cfg (canonical_resolve.mpr ⟨k, h₁⟩) _ hp]
    cases hc : canonical fs₁ (joinPath cfg.resourceDir ((routePath req).drop 1)) with
    | none => exact ⟨_, rfl, fun _ => rfl, fun q hq => by cases hq⟩
    | some q =>
      refine ⟨_, rfl, ?_, ?_⟩
      · intro h
        cases h
      · intro q' hq' hout
        cases hq'
        simp only [hout, if_false]
        rfl

/-- With a file above the resource directory. -/
def siteKey : Fs := Fs.ofList (([ascii "key"], .leaf (.regular (ascii "k") true)) :: siteEntries) (by decide) (by decide)

theorem siteKey_agrees (x : List Bytes) (h : siteRoot <+: x) : site.tree.node x = siteKey.tree.node x := by
  refine (Tree.listed_cons_of_ne ?_).symm
  intro hx
  subst hx
  exact absurd h (by decide)

theorem site_answers_alike :
    respond siteConfig 1 ⟨site, ()⟩ (requestFor .get (ascii "/index.html")) =
      respond siteConfig 1 ⟨siteKey, ()⟩ (requestFor .get (ascii "/index.html")) := by
  have h₁ : resolve site siteConfig.resourceDir = some (siteRoot, maxLinks) := by decide
  have h₂ : resolve siteKey siteConfig.resourceDir = some (siteRoot, maxLinks) := by decide
  exact (inside_requests_blind_outside siteConfig 1 () _ h₁ h₂ (by decide) siteKey_agrees).1 fun _ => by decide

/-- The two sites differ in a file outside alone, and no link is in either; the request's
    path names that file. -/
theorem existence_outside_leaks :
    canonical site siteConfig.resourceDir = some siteRoot ∧ canonical siteKey siteConfig.resourceDir = some siteRoot ∧
    (∀ x, siteRoot <+: x → site.tree.node x = siteKey.tree.node x) ∧
    (∀ x t, site.tree.node x ≠ some (.link t)) ∧
    respond siteConfig 1 ⟨site, ()⟩ (requestFor .get (ascii "/../../key")) ≠
      respond siteConfig 1 ⟨siteKey, ()⟩ (requestFor .get (ascii "/../../key")) := by
  refine ⟨by decide, by decide, siteKey_agrees, ?_, by decide⟩
  intro x t h
  by_cases hx : x = []
  · subst hx
    cases h
  · have hm := Tree.mem_of_listed hx h
    simp [siteEntries] at hm

end BreWebServer.Server
