/-
  BreWebServer.Http.Request — `HttpRequest`, the resumable request parser.

  A `Buffer` is the queue of its readable bytes: `Peek` is its head, `RetrieveUntil(p)`
  drops what stands before `p`, `FindCRLF` finds the first "\r\n" of it. `parse` is the
  source's `while (true)` loop over `parseRound`, one iteration of it.
-/

import BreWebServer.Lib.Reader
import BreWebServer.Cpp.Text

namespace BreWebServer.Http

open BreWebServer.Lib BreWebServer.Cpp

abbrev Buffer := Bytes

inductive HttpMethod where
  | invalid
  | get
  | post
  | head
  | put
  | del
  | options
  | patch
  deriving DecidableEq, Repr

inductive ParseState where
  | requestLine
  | headers
  | body
  | finish
  deriving DecidableEq, Repr

structure HttpRequest where
  method : HttpMethod
  path : Bytes
  version : Bytes
  headers : Headers
  body : Bytes
  parseState : ParseState
  contentLength : Nat
  deriving DecidableEq

/-- What `HttpRequest()` and `Reset` leave. -/
def HttpRequest.fresh : HttpRequest := ⟨.invalid, [], [], ∅, [], .requestLine, 0⟩

def HttpRequest.reset (_ : HttpRequest) : HttpRequest := .fresh

/-- How a call of `Parse` ends: it returns, or an exception leaves it. -/
inductive Outcome where
  | returned (b : Bool)
  | threw (e : Exc)
  deriving DecidableEq, Repr

def stringToMethod (str : Bytes) : HttpMethod :=
  if str = ascii "GET" then .get
  else if str = ascii "POST" then .post
  else if str = ascii "HEAD" then .head
  else if str = ascii "PUT" then .put
  else if str = ascii "DELETE" then .del
  else if str = ascii "OPTIONS" then .options
  else if str = ascii "PATCH" then .patch
  else .invalid

/-- The method is stored before the rest of the line is looked at, so a rejected line
    leaves it behind. -/
def parseRequestLine (req : HttpRequest) (line : Bytes) : Bool × HttpRequest :=
  match cut [sp] line with
  | none => (false, req)
  | some (methodStr, rest) =>
    let method := stringToMethod methodStr
    if method = .invalid then (false, { req with method })
    else
      match cut [sp] rest with
      | none => (false, { req with method })
      | some (path, version) => (true, { req with method, path, version })

def parseHeader (req : HttpRequest) (line : Bytes) : Bool × HttpRequest :=
  match cut [colon] line with
  | none => (false, req)
  | some (key, value) =>
    (true, { req with headers := req.headers.insert key (value.dropWhile (· == sp)) })

def contentLengthKey : Bytes := ascii "Content-Length"

/-- The request line ends at the CRLF before `rest`. -/
def requestLineRound (req : HttpRequest) (line : Bytes) (rest : Buffer) : Round HttpRequest Outcome UInt8 :=
  match parseRequestLine req line with
  | (false, req) => .wait req
  | (true, req) => .next { req with parseState := .headers } rest

/-- A header line ends at the CRLF before `rest`; an empty one ends the headers. A length
    that `std::stoull` refuses leaves the blank line consumed and the state at `headers`. -/
def headerRound (req : HttpRequest) (line : Bytes) (rest : Buffer) : Round HttpRequest Outcome UInt8 :=
  if line = [] then
    match req.headers.lookup contentLengthKey with
    | some value =>
      match stoull value with
      | .ok n => .next { req with contentLength := n, parseState := .body } rest
      | .error e => .halt (.threw e) req rest
    | none => .halt (.returned true) { req with parseState := .finish } rest
  else
    match parseHeader req line with
    | (false, req) => .wait req
    | (true, req) => .next req rest

/-- One iteration of `Parse`'s loop. A `wait` is a `return false`. -/
def parseRound (req : HttpRequest) (buffer : Buffer) : Round HttpRequest Outcome UInt8 :=
  match req.parseState with
  | .requestLine =>
    match cut crlf buffer with
    | none => .wait req
    | some (line, rest) => requestLineRound req line rest
  | .headers =>
    match cut crlf buffer with
    | none => .wait req
    | some (line, rest) => headerRound req line rest
  | .body =>
    if req.contentLength ≤ buffer.length then
      .halt (.returned true)
        { req with body := buffer.take req.contentLength, parseState := .finish }
        (buffer.drop req.contentLength)
    else .wait req
  | .finish => .halt (.returned true) req buffer

def toOutcome : Option Outcome → Outcome
  | some o => o
  | none => .returned false

def parse (req : HttpRequest) (buffer : Buffer) : Outcome × HttpRequest × Buffer :=
  let out := Reader.drain parseRound req buffer
  (toOutcome out.1, out.2)

def HttpRequest.getHeader (req : HttpRequest) (key : Bytes) : Bytes := (req.headers.lookup key).getD []

def HttpRequest.hasHeader (req : HttpRequest) (key : Bytes) : Bool := (req.headers.lookup key).isSome

example : (parse .fresh (ascii "GET /index.html HTTP/1.1\r\nHost: localhost\r\n\r\nGET")).1 = .returned true := by
  decide

end BreWebServer.Http
