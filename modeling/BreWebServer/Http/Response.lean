/-
  BreWebServer.Http.Response — `HttpResponse`, the response builder.

  `build` appends to a buffer: status line, headers in the order the map iterates them,
  blank line, body. The iteration order of an `unordered_map` is the library's choice; a
  `MapOrder` is one that visits every entry once.
-/

import BreWebServer.Http.Request
import BreWebServer.Cpp.Filesystem

namespace BreWebServer.Http

open BreWebServer.Lib BreWebServer.Cpp

inductive HttpStatus where
  | ok
  | created
  | noContent
  | movedPermanently
  | found
  | notModified
  | badRequest
  | unauthorized
  | forbidden
  | notFound
  | methodNotAllowed
  | conflict
  | internalServerError
  | notImplemented
  | serviceUnavailable
  deriving DecidableEq, Repr

def HttpStatus.code : HttpStatus → Nat
  | .ok => 200
  | .created => 201
  | .noContent => 204
  | .movedPermanently => 301
  | .found => 302
  | .notModified => 304
  | .badRequest => 400
  | .unauthorized => 401
  | .forbidden => 403
  | .notFound => 404
  | .methodNotAllowed => 405
  | .conflict => 409
  | .internalServerError => 500
  | .notImplemented => 501
  | .serviceUnavailable => 503

def getStatusMessage : HttpStatus → Bytes
  | .ok => ascii "OK"
  | .created => ascii "Created"
  | .noContent => ascii "No Content"
  | .movedPermanently => ascii "Moved Permanently"
  | .found => ascii "Found"
  | .notModified => ascii "Not Modified"
  | .badRequest => ascii "Bad Request"
  | .unauthorized => ascii "Unauthorized"
  | .forbidden => ascii "Forbidden"
  | .notFound => ascii "Not Found"
  | .methodNotAllowed => ascii "Method Not Allowed"
  | .conflict => ascii "Conflict"
  | .internalServerError => ascii "Internal Server Error"
  | .notImplemented => ascii "Not Implemented"
  | .serviceUnavailable => ascii "Service Unavailable"

def mimeTypes : List (Bytes × Bytes) :=
  [(ascii ".html", ascii "text/html; charset=utf-8"),
    (ascii ".htm", ascii "text/html; charset=utf-8"),
    (ascii ".css", ascii "text/css"),
    (ascii ".js", ascii "application/javascript"),
    (ascii ".json", ascii "application/json"),
    (ascii ".xml", ascii "application/xml"),
    (ascii ".jpg", ascii "image/jpeg"),
    (ascii ".jpeg", ascii "image/jpeg"),
    (ascii ".png", ascii "image/png"),
    (ascii ".gif", ascii "image/gif"),
    (ascii ".svg", ascii "image/svg+xml"),
    (ascii ".ico", ascii "image/x-icon"),
    (ascii ".txt", ascii "text/plain"),
    (ascii ".pdf", ascii "application/pdf"),
    (ascii ".zip", ascii "application/zip"),
    (ascii ".mp4", ascii "video/mp4"),
    (ascii ".mp3", ascii "audio/mpeg")]

def getContentType (ext : Bytes) : Bytes := (mimeTypes.lookup ext).getD (ascii "application/octet-stream")

structure HttpResponse where
  status : HttpStatus
  headers : Headers
  body : Bytes
  keepAlive : Bool

namespace HttpResponse

def new : HttpResponse := ⟨.ok, ∅, [], false⟩

def setStatus (r : HttpResponse) (status : HttpStatus) : HttpResponse := { r with status }

def setBody (r : HttpResponse) (body : Bytes) : HttpResponse := { r with body }

def addHeader (r : HttpResponse) (key value : Bytes) : HttpResponse := { r with headers := r.headers.insert key value }

def setKeepAlive (r : HttpResponse) (keepAlive : Bool) : HttpResponse := { r with keepAlive }

def setContentType (r : HttpResponse) (contentType : Bytes) : HttpResponse :=
  r.addHeader (ascii "Content-Type") contentType

/-- `LoadFile`: `none` when the file does not open. -/
def loadFile (r : HttpResponse) (fs : Fs) (filePath : List Bytes) : Option HttpResponse :=
  (readFile fs filePath).map fun content =>
    (r.setBody content).setContentType (getContentType (extension (filePath.getLast?.getD [])))

def makeErrorResponse (status : HttpStatus) (message : Bytes) : HttpResponse :=
  let body := ascii "<html><head><title>Error</title></head><body>" ++
    (ascii "<h1>" ++ decimalString status.code ++ ascii " " ++ getStatusMessage status ++ ascii "</h1>") ++
    (if message = [] then [] else ascii "<p>" ++ message ++ ascii "</p>") ++ ascii "</body></html>"
  ((new.setStatus status).setContentType (ascii "text/html; charset=utf-8")).setBody body

def makeTextResponse (text : Bytes) : HttpResponse :=
  ((new.setStatus .ok).setContentType (ascii "text/plain; charset=utf-8")).setBody text

def makeJsonResponse (json : Bytes) : HttpResponse :=
  ((new.setStatus .ok).setContentType (ascii "application/json; charset=utf-8")).setBody json

/-- The order in which a header map is iterated. -/
structure MapOrder where
  order : Headers → List (Bytes × Bytes)
  perm : ∀ h, (order h).Perm (h.entries.map fun e => (e.1, e.2))

/-- That in which an association list holds its entries. -/
def MapOrder.listed : MapOrder := ⟨fun h => h.entries.map fun e => (e.1, e.2), fun _ => List.Perm.refl _⟩

/-- The response as `Build` leaves it: with the headers it adds. -/
def finished (r : HttpResponse) : HttpResponse :=
  let r :=
    if r.keepAlive then
      (r.addHeader (ascii "Connection") (ascii "keep-alive")).addHeader (ascii "Keep-Alive") (ascii "timeout=5, max=100")
    else r.addHeader (ascii "Connection") (ascii "close")
  r.addHeader (ascii "Content-Length") (decimalString r.body.length)

def statusLine (status : HttpStatus) : Bytes :=
  ascii "HTTP/1.1 " ++ decimalString status.code ++ ascii " " ++ getStatusMessage status

def headerLine (kv : Bytes × Bytes) : Bytes := kv.1 ++ ascii ": " ++ kv.2

def build (it : MapOrder) (r : HttpResponse) (buffer : Buffer) : HttpResponse × Buffer :=
  let buffer := buffer ++ (statusLine r.status ++ crlf)
  let r := r.finished
  let buffer := (it.order r.headers).foldl (fun buffer kv => buffer ++ (headerLine kv ++ crlf)) buffer
  let buffer := buffer ++ crlf
  let buffer := if r.body = [] then buffer else buffer ++ r.body
  (r, buffer)

/-- What `Build` appends. -/
def encode (it : MapOrder) (r : HttpResponse) : Bytes := (build it r []).2

/-! ## What is built -/

theorem foldl_append {β : Type*} (f : β → Bytes) (l : List β) : ∀ b : Bytes,
    l.foldl (fun b x => b ++ f x) b = b ++ l.flatMap f := by
  induction l with
  | nil => intro b; simp
  | cons x l ih => intro b; simp [ih]

@[simp] theorem finished_body (r : HttpResponse) : r.finished.body = r.body := by
  unfold finished; split <;> rfl

/-- The lines before the blank one. -/
def headLines (it : MapOrder) (r : HttpResponse) : List Bytes :=
  statusLine r.status :: (it.order r.finished.headers).map headerLine

theorem build_append (it : MapOrder) (r : HttpResponse) (buffer : Buffer) :
    (build it r buffer).2 = buffer ++ (glue (headLines it r) ++ crlf ++ r.body) := by
  have hb : ∀ b : Buffer, (if r.finished.body = [] then b else b ++ r.finished.body) = b ++ r.body := by
    intro b
    rw [finished_body]
    split
    · simp [*]
    · rfl
  simp only [build, hb, foldl_append]
  simp [glue, headLines, List.flatMap_map]

theorem encode_eq (it : MapOrder) (r : HttpResponse) : encode it r = glue (headLines it r) ++ crlf ++ r.body := by
  simpa [encode] using build_append it r []

/-- Headers without a CR make lines that end where they are ended. -/
theorem headLines_clear {it : MapOrder} {r : HttpResponse} (h : ∀ kv ∈ it.order r.finished.headers, 13 ∉ headerLine kv) :
    ∀ l ∈ headLines it r, l ≠ [] ∧ ¬ crlf <:+: l := by
  have hclear : ∀ {l : Bytes}, 13 ∉ l → ¬ crlf <:+: l := fun h hi => h (hi.subset (by decide))
  have hstatus : ∀ status, statusLine status ≠ [] ∧ 13 ∉ statusLine status := by
    intro status
    cases status <;> decide
  intro l hl
  rcases List.mem_cons.mp hl with rfl | hl
  · exact ⟨(hstatus _).1, hclear (hstatus _).2⟩
  · obtain ⟨kv, hkv, rfl⟩ := List.mem_map.mp hl
    exact ⟨by simp [headerLine, ascii], hclear (h kv hkv)⟩

/-- `Build` appends the same bytes to any buffer. -/
theorem build_eq_encode (it : MapOrder) (r : HttpResponse) (buffer : Buffer) :
    (build it r buffer).2 = buffer ++ encode it r := by
  rw [build_append, encode_eq]

end HttpResponse

end BreWebServer.Http
