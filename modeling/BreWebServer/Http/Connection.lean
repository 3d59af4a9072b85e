/-
  BreWebServer.Http.Connection — `HttpConnection::_handleRequest`, the static file server
  that `Session` replaced.

  It asks for the status of the joined path and loads that path, with no containment check
  and no handler for what `std::filesystem` throws. It has no API routes and takes the
  connection to be kept alive for one spelling of the word; nothing reads that flag.
-/

import BreWebServer.Http.Response

namespace BreWebServer.Http

open BreWebServer.Lib BreWebServer.Cpp

/-- `path::filename`: what follows a path's last slash. -/
def fileName (p : Bytes) : Bytes := (splitSlash p).getLast?.getD []

/-- `LoadFile` on a path that is not canonical: the stream resolves it, the extension is
    that of the path's text. -/
def HttpResponse.loadPath (r : HttpResponse) (fs : Fs) (filePath : Bytes) : Option HttpResponse :=
  ((canonical fs filePath).bind (readFile fs)).map fun content =>
    (r.setBody content).setContentType (getContentType (extension (fileName filePath)))

namespace HttpConnection

def exists_ (fs : Fs) (p : Bytes) : Except Exc Bool := (fileStatus fs p).map (·.isSome)

def isRegularNode : Option (Node Bytes Entry) → Bool
  | some (.leaf (.regular _ _)) => true
  | _ => false

def isRegular (fs : Fs) (p : Bytes) : Except Exc Bool := (fileStatus fs p).map isRegularNode

/-- `exists(p) && is_regular_file(p)`. -/
def isFile (fs : Fs) (p : Bytes) : Except Exc Bool := do
  if ← exists_ fs p then isRegular fs p else pure false

/-- The file a request names. -/
def filePath (resourceDir : Bytes) (req : HttpRequest) : Bytes :=
  let path := if req.path = ascii "/" then ascii "/index.html" else req.path
  joinPath resourceDir (path.drop 1)

/-- The response that is built for a request. -/
def handleRequest (resourceDir : Bytes) (fs : Fs) (req : HttpRequest) : Except Exc HttpResponse :=
  let response := HttpResponse.new.setKeepAlive (req.getHeader (ascii "Connection") == ascii "keep-alive")
  if req.path = [] then .error .outOfRange
  else do
    let filePath := filePath resourceDir req
    if ← isFile fs filePath then
      match response.loadPath fs filePath with
      | some response => pure (response.setStatus .ok)
      | none => pure (HttpResponse.makeErrorResponse .forbidden [])
    else pure (HttpResponse.makeErrorResponse .notFound [])

/-! ## What it answers -/

/-- The two questions about the path are one about what it leads to. -/
theorem isFile_eq (fs : Fs) (p : Bytes) : isFile fs p = (fileStatus fs p).map isRegularNode := by
  unfold isFile exists_ isRegular
  cases fileStatus fs p with
  | error e => rfl
  | ok x => cases x <;> rfl

/-- What a client sees of the answer: its status and body. -/
def shown (resourceDir : Bytes) (fs : Fs) (req : HttpRequest) : Option (HttpStatus × Bytes) :=
  (handleRequest resourceDir fs req).toOption.map fun r => (r.status, r.body)

/-- The answer by the node that the path leads to. -/
theorem shown_eq (resourceDir : Bytes) (fs : Fs) {req : HttpRequest} (hp : req.path ≠ []) :
    shown resourceDir fs req =
      if refused fs (filePath resourceDir req) then none
      else
        match (canonical fs (filePath resourceDir req)).bind fs.tree.node with
        | some (.leaf (.regular content true)) => some (.ok, content)
        | some (.leaf (.regular _ false)) => some (.forbidden, (HttpResponse.makeErrorResponse .forbidden []).body)
        | _ => some (.notFound, (HttpResponse.makeErrorResponse .notFound []).body) := by
  unfold shown handleRequest
  simp only [hp, if_false, isFile_eq, fileStatus, HttpResponse.loadPath]
  cases refused fs (filePath resourceDir req) with
  | true => rfl
  | false =>
    cases canonical fs (filePath resourceDir req) with
    | none => rfl
    | some q =>
      simp only [Option.bind_some, Bool.false_eq_true, if_false, readFile]
      generalize fs.tree.node q = x
      cases x using node_cases with
      | regular content openable => cases openable <;> rfl
      | _ => rfl

end HttpConnection

end BreWebServer.Http
