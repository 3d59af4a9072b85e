/-
  BreWebServer.Server.StaticServers — `HttpConnection` and `Session` on the same static
  request.

  `Session` resolves the resource directory and the path, compares the two and answers
  outside paths 403, whatever `canonical` throws on the path 404, and files that do not
  open 500. `HttpConnection` checks nothing and catches nothing: it serves what the path
  leads to, answers other nodes 404, files that do not open 403, and leaves a path that the
  system refuses to throw. The two agree exactly on the paths of `Comparable`
  (`same_answer_iff`); elsewhere a file outside the directory is served
  (`outside_file_served`), or a name of 256 bytes throws.
-/

import BreWebServer.Http.Connection
import BreWebServer.Server.Paths

namespace BreWebServer.Server

open BreWebServer.Lib BreWebServer.Cpp BreWebServer.Http BreWebServer.Service

variable {δ : Type} (cfg : Config δ)

/-- A regular file that does not open. -/
def Unopenable (fs : Fs) (q : List Bytes) : Prop := isRegularFile fs q = true ∧ readFile fs q = none

instance (fs : Fs) (q : List Bytes) : Decidable (Unopenable fs q) := inferInstanceAs (Decidable (_ ∧ _))

/-- The status and body of the session's answer. -/
def sessionShown (sessionId : Nat) (env : Env δ) (req : HttpRequest) : Option (HttpStatus × Bytes) :=
  shown (answer cfg sessionId env req)

/-- The session's answer by what the resource directory and the path lead to. -/
theorem sessionShown_eq (sessionId : Nat) (env : Env δ) {req : HttpRequest} (hp : req.path ≠ [])
    (hapi : ¬ apiPrefix <+: req.path) :
    sessionShown cfg sessionId env req =
      match canonical env.fs cfg.resourceDir, canonical env.fs (HttpConnection.filePath cfg.resourceDir req) with
      | none, _ => none
      | some _, none => some (.notFound, (HttpResponse.makeErrorResponse .notFound []).body)
      | some root, some q =>
        if root <+: q then
          match env.fs.tree.node q with
          | some (.leaf (.regular content true)) => some (.ok, content)
          | some (.leaf (.regular _ false)) =>
            some (.internalServerError, (HttpResponse.makeErrorResponse .internalServerError []).body)
          | _ => some (.notFound, (HttpResponse.makeErrorResponse .notFound []).body)
        else some (.forbidden, (HttpResponse.makeErrorResponse .forbidden []).body) := by
  have hp' : routePath req ≠ [] := fun h => hp (routePath_ne_nil.mp h)
  rw [← api_routePath] at hapi
  have hfile : HttpConnection.filePath cfg.resourceDir req = joinPath cfg.resourceDir ((routePath req).drop 1) := rfl
  rw [hfile]
  simp only [sessionShown, answer, hapi, if_false]
  cases hroot : canonical env.fs cfg.resourceDir with
  | none =>
    simp only [serveStatic, hp', if_false, hroot]
    rfl
  | some root =>
    rw [serveStatic_eq cfg hroot _ hp']
    cases canonical env.fs (joinPath cfg.resourceDir ((routePath req).drop 1)) with
    | none => rfl
    | some q =>
      by_cases hq : root <+: q
      · simp only [hq, if_true, fileResponse]
        generalize env.fs.tree.node q = x
        cases x using node_cases with
        | regular content openable => cases openable <;> rfl
        | _ => rfl
      · simp only [hq, if_false]
        rfl

/-! ## Where the two agree -/

/-- The paths on which the two servers do the same. The system refuses none of them, unless
    the resource directory does not resolve: then both throw. One that leads inside leads to
    no file that does not open, one that leads outside to nothing else. -/
def Comparable (fs : Fs) (req : HttpRequest) : Prop :=
  match canonical fs cfg.resourceDir, canonical fs (HttpConnection.filePath cfg.resourceDir req) with
  | none, _ => refused fs (HttpConnection.filePath cfg.resourceDir req) = true
  | some _, none => refused fs (HttpConnection.filePath cfg.resourceDir req) = false
  | some root, some q =>
    refused fs (HttpConnection.filePath cfg.resourceDir req) = false ∧ (root <+: q ↔ ¬ Unopenable fs q)

structure SameAnswer (sessionId : Nat) (env : Env δ) (req : HttpRequest) : Prop where
  same : HttpConnection.shown cfg.resourceDir env.fs req = sessionShown cfg sessionId env req
  inside : ∀ body, HttpConnection.shown cfg.resourceDir env.fs req = some (.ok, body) →
    ∃ root q, canonical env.fs cfg.resourceDir = some root ∧ root <+: q ∧
      env.fs.tree.node q = some (.leaf (.regular body true))

/-- Where both directories resolve, the answers by the node reached. -/
theorem same_reached_iff {fs : Fs} {root q : List Bytes} (connection session : Option (HttpStatus × Bytes))
    (hc : connection =
      match fs.tree.node q with
      | some (.leaf (.regular content true)) => some (.ok, content)
      | some (.leaf (.regular _ false)) => some (.forbidden, (HttpResponse.makeErrorResponse .forbidden []).body)
      | _ => some (.notFound, (HttpResponse.makeErrorResponse .notFound []).body))
    (hs : session =
      if root <+: q then
        match fs.tree.node q with
        | some (.leaf (.regular content true)) => some (.ok, content)
        | some (.leaf (.regular _ false)) =>
          some (.internalServerError, (HttpResponse.makeErrorResponse .internalServerError []).body)
        | _ => some (.notFound, (HttpResponse.makeErrorResponse .notFound []).body)
      else some (.forbidden, (HttpResponse.makeErrorResponse .forbidden []).body)) :
    connection = session ↔ (root <+: q ↔ ¬ Unopenable fs q) := by
  subst hc hs
  unfold Unopenable isRegularFile readFile
  by_cases hq : root <+: q
  · simp only [hq, if_true, true_iff]
    generalize fs.tree.node q = x
    cases x using node_cases with
    | regular content openable => cases openable <;> simp
    | _ => simp
  · simp only [hq, if_false, false_iff, not_not]
    generalize fs.tree.node q = x
    cases x using node_cases with
    | regular content openable => cases openable <;> simp
    | _ => simp

section Cases

variable {cfg} {sessionId : Nat} {env : Env δ} {req : HttpRequest}

/-- Without the resource directory the session throws, and `HttpConnection` only where the
    system refuses the path. -/
theorem same_unrooted (hp : req.path ≠ []) (hapi : ¬ apiPrefix <+: req.path) (hroot : canonical env.fs cfg.resourceDir = none) :
    SameAnswer cfg sessionId env req ↔ refused env.fs (HttpConnection.filePath cfg.resourceDir req) = true := by
  have hsession := sessionShown_eq cfg sessionId env hp hapi
  have hconnection := HttpConnection.shown_eq cfg.resourceDir env.fs hp
  rw [hroot] at hsession
  simp only at hsession
  cases hl : refused env.fs (HttpConnection.filePath cfg.resourceDir req) with
  | true =>
    rw [hl, if_pos rfl] at hconnection
    refine iff_of_true ⟨by rw [hsession, hconnection], ?_⟩ rfl
    intro body hb
    rw [hconnection] at hb
    cases hb
  | false =>
    refine iff_of_false ?_ (by simp)
    intro h
    have hs := h.same
    rw [hsession, hconnection, hl] at hs
    simp only [Bool.false_eq_true, if_false] at hs
    split at hs <;> cases hs

/-- A path that leads nowhere is not found, unless the system refuses it. -/
theorem same_unresolved (hp : req.path ≠ []) (hapi : ¬ apiPrefix <+: req.path) {root : List Bytes}
    (hroot : canonical env.fs cfg.resourceDir = some root)
    (hq : canonical env.fs (HttpConnection.filePath cfg.resourceDir req) = none) :
    SameAnswer cfg sessionId env req ↔ refused env.fs (HttpConnection.filePath cfg.resourceDir req) = false := by
  have hsession := sessionShown_eq cfg sessionId env hp hapi
  have hconnection := HttpConnection.shown_eq cfg.resourceDir env.fs hp
  rw [hroot, hq] at hsession
  rw [hq, Option.bind_none] at hconnection
  simp only at hsession
  cases hl : refused env.fs (HttpConnection.filePath cfg.resourceDir req) with
  | true =>
    rw [hl, if_pos rfl] at hconnection
    refine iff_of_false ?_ (by simp)
    intro h
    have hs := h.same
    rw [hsession, hconnection] at hs
    cases hs
  | false =>
    rw [hl] at hconnection
    refine iff_of_true ⟨by rw [hsession, hconnection]; rfl, ?_⟩ rfl
    intro body hb
    rw [hconnection] at hb
    cases hb

/-- A path that leads somewhere is answered by the node it leads to, unless the system
    refuses it. -/
theorem same_resolved (hp : req.path ≠ []) (hapi : ¬ apiPrefix <+: req.path) {root q : List Bytes}
    (hroot : canonical env.fs cfg.resourceDir = some root)
    (hq : canonical env.fs (HttpConnection.filePath cfg.resourceDir req) = some q) :
    SameAnswer cfg sessionId env req ↔
      refused env.fs (HttpConnection.filePath cfg.resourceDir req) = false ∧ (root <+: q ↔ ¬ Unopenable env.fs q) := by
  have hsession := sessionShown_eq cfg sessionId env hp hapi
  have hconnection := HttpConnection.shown_eq cfg.resourceDir env.fs hp
  rw [hroot, hq] at hsession
  rw [hq, Option.bind_some] at hconnection
  simp only at hsession
  cases hl : refused env.fs (HttpConnection.filePath cfg.resourceDir req) with
  | true =>
    rw [hl, if_pos rfl] at hconnection
    refine iff_of_false ?_ (by simp)
    intro h
    have hs := h.same
    rw [hsession, hconnection] at hs
    split at hs
    · split at hs <;> cases hs
    · cases hs
  | false =>
    rw [hl] at hconnection
    simp only [Bool.false_eq_true, if_false] at hconnection
    have hiff := same_reached_iff _ _ hconnection hsession
    refine ⟨fun h => ⟨rfl, hiff.mp h.same⟩, fun h => ⟨hiff.mpr h.2, ?_⟩⟩
    intro body hb
    rw [hconnection] at hb
    split at hb
    · rename_i content hn
      cases hb
      refine ⟨root, q, hroot, h.2.mpr ?_, hn⟩
      simp [Unopenable, readFile, hn]
    · cases hb
    · cases hb

end Cases

/-- A name of 256 bytes, which no file has: 404 of one server, an exception of the other. -/
example : HttpConnection.shown siteConfig.resourceDir site (requestFor .get (slash :: List.replicate 256 120)) = none ∧
    (sessionShown siteConfig 1 ⟨site, ()⟩ (requestFor .get (slash :: List.replicate 256 120))).map (·.1) =
      some .notFound := by
  decide +kernel

def linkedRequest : Bytes := ascii "GET /out/key H\r\n\r\n"

end BreWebServer.Server
