/-
  BreWebServer.Server.FieldNames — the letter case of header field names.

  Two byte streams are `Respelled` when they differ in the letter case of header field
  names only. `same_reading_iff`: the server reads both alike exactly when every spelling
  of a name has the same last value in both, for the header map, the `Content-Length`
  lookup and the `Connection` lookup all compare names byte for byte; with a lower-case
  `content-length` the body stays in the buffer as the next request
  (`lower_case_length_ignored`).
-/

import BreWebServer.Http.Client
import BreWebServer.Http.HeaderSection
import BreWebServer.Server.HandleRequest

namespace BreWebServer.Server

open BreWebServer.Lib BreWebServer.Cpp BreWebServer.Http

/-- Lines that differ in the letter case of the field's name at most. -/
def SameField (l l' : Bytes) : Prop :=
  Client.lower (headerName l) = Client.lower (headerName l') ∧ l.dropWhile (· != colon) = l'.dropWhile (· != colon)

/-- Streams with the same first line and the same fields under names that may be spelled
    differently. What is behind the fields differs in letter case at most: the names in an
    unfinished line or in the requests that follow. -/
structure Respelled (a b line : Bytes) (lines lines' : List Bytes) (tail tail' : Bytes) : Prop where
  left : a = line ++ crlf ++ (glue lines ++ tail)
  right : b = line ++ crlf ++ (glue lines' ++ tail')
  first_clear : ¬ crlf <:+: line
  left_lines : HeaderLines lines
  right_lines : HeaderLines lines'
  fields : List.Forall₂ SameField lines lines'
  ended : (crlf <+: tail ∧ crlf <+: tail') ∨ (Stuck tail ∧ Stuck tail')
  same_end : Client.lower tail = Client.lower tail'

/-- What the server reads from two streams is the same. -/
structure SameReading (a b : Bytes) : Prop where
  outcome : (parse .fresh a).1 = (parse .fresh b).1
  method : (parse .fresh a).2.1.method = (parse .fresh b).2.1.method
  path : (parse .fresh a).2.1.path = (parse .fresh b).2.1.path
  version : (parse .fresh a).2.1.version = (parse .fresh b).2.1.version
  body : (parse .fresh a).2.1.body = (parse .fresh b).2.1.body
  leftover : (parse .fresh a).2.2 = (parse .fresh b).2.2
  hasHeader : ∀ name, (parse .fresh a).2.1.hasHeader name = (parse .fresh b).2.1.hasHeader name
  getHeader : ∀ name, (parse .fresh a).2.1.getHeader name = (parse .fresh b).2.1.getHeader name
  keepAlive : wantsKeepAlive (parse .fresh a).2.1 = wantsKeepAlive (parse .fresh b).2.1

/-! ## What the headers do to a reading -/

/-- The blank line looks one header up and leaves them as they are. -/
theorem bodyStep_headers (req : HttpRequest) {hs : Headers}
    (h : req.headers.lookup contentLengthKey = hs.lookup contentLengthKey) (rest : Bytes) :
    bodyStep { req with headers := hs } rest =
      ((bodyStep req rest).1, { (bodyStep req rest).2.1 with headers := hs }, (bodyStep req rest).2.2) := by
  unfold bodyStep
  simp only [← h]
  cases hv : req.headers.lookup contentLengthKey with
  | none => rfl
  | some value =>
    cases hn : stoull value with
    | error e => simp only [hn]
    | ok n =>
      simp only [hn]
      split <;> rfl

theorem bodyStep_keeps (req : HttpRequest) (rest : Bytes) : (bodyStep req rest).2.1.headers = req.headers := by
  unfold bodyStep
  repeat' split
  all_goals rfl

theorem bodyStep_splits {req : HttpRequest} (h : req.body = []) (rest : Bytes) :
    (bodyStep req rest).2.1.body ++ (bodyStep req rest).2.2 = rest := by
  unfold bodyStep
  repeat' split
  all_goals simp [h]

/-- Readings that agree but for the headers, which answer alike. -/
theorem sameReading_of {a b : Bytes} {o : Option Outcome} {req : HttpRequest} {hs : Headers} {rest : Bytes}
    (ha : Reader.drain parseRound .fresh a = (o, req, rest))
    (hb : Reader.drain parseRound .fresh b = (o, { req with headers := hs }, rest))
    (h : ∀ name, req.headers.lookup name = hs.lookup name) : SameReading a b := by
  constructor
  all_goals simp [parse, ha, hb, HttpRequest.hasHeader, HttpRequest.getHeader, wantsKeepAlive, h]

/-- A reading answers for each name with its last line. -/
theorem lastValue_of_same {a b : Bytes} {lines lines' : List Bytes} (h : SameReading a b)
    (ha : (parse .fresh a).2.1.headers = withLines ∅ lines) (hb : (parse .fresh b).2.1.headers = withLines ∅ lines')
    (name : Bytes) : lastValue name lines = lastValue name lines' := by
  have hhas := h.hasHeader name
  have hget := h.getHeader name
  simp only [HttpRequest.hasHeader, HttpRequest.getHeader, ha, hb, lookup_lines] at hhas hget
  cases hv : lastValue name lines with
  | none =>
    cases hv' : lastValue name lines' with
    | none => rfl
    | some v' => simp [hv, hv'] at hhas
  | some v =>
    cases hv' : lastValue name lines' with
    | none => simp [hv, hv'] at hhas
    | some v' => simpa [hv, hv'] using hget

theorem sameReading_of_eq {a b : Bytes} (h : a = b) : SameReading a b := by
  subst h
  constructor
  all_goals simp

theorem lookup_alike {lines lines' : List Bytes} (h : ∀ name, lastValue name lines = lastValue name lines')
    (name : Bytes) : (withLines ∅ lines).lookup name = (withLines ∅ lines').lookup name := by
  rw [lookup_lines, lookup_lines, h]

/-! ## Respelled streams -/

/-- Header sections that end with a blank line: the body and what is left over are all that
    is behind it. -/
theorem same_reading_ended {a b rest rest' : Bytes} {lines lines' : List Bytes} {req : HttpRequest}
    (h0 : req.body = []) (hr : req.headers = withLines ∅ lines) (ha : Reader.drain parseRound .fresh a = bodyStep req rest)
    (hb : Reader.drain parseRound .fresh b = bodyStep { req with headers := withLines ∅ lines' } rest') :
    SameReading a b ↔ rest = rest' ∧ ∀ name, lastValue name lines = lastValue name lines' := by
  refine ⟨?_, ?_⟩
  · intro h
    have hbody := h.body
    have hleft := h.leftover
    simp only [parse, ha, hb] at hbody hleft
    have hsplit := bodyStep_splits h0 rest
    have hsplit' := @bodyStep_splits { req with headers := withLines ∅ lines' } h0 rest'
    refine ⟨by rw [← hsplit, ← hsplit', hbody, hleft], ?_⟩
    apply lastValue_of_same h
    · simp [parse, ha, bodyStep_keeps, hr]
    · simp [parse, hb, bodyStep_keeps]
  · intro h
    obtain ⟨rfl, h⟩ := h
    have hlookup : ∀ name, req.headers.lookup name = (withLines ∅ lines').lookup name := by
      intro name
      rw [hr]
      exact lookup_alike h name
    have hstep := bodyStep_headers req (hlookup contentLengthKey) rest
    refine @sameReading_of a b _ (bodyStep req rest).2.1 _ _ ha (hb.trans hstep) ?_
    intro name
    rw [bodyStep_keeps]
    exact hlookup name

/-- Header sections that have not ended: what is unread must be the same too. -/
theorem same_reading_unended {a b tail tail' : Bytes} {lines lines' : List Bytes} {req : HttpRequest}
    (hr : req.headers = withLines ∅ lines) (ha : Reader.drain parseRound .fresh a = (none, req, tail))
    (hb : Reader.drain parseRound .fresh b = (none, { req with headers := withLines ∅ lines' }, tail')) :
    SameReading a b ↔ tail = tail' ∧ ∀ name, lastValue name lines = lastValue name lines' := by
  refine ⟨?_, ?_⟩
  · intro h
    have hleft := h.leftover
    simp only [parse, ha, hb] at hleft
    refine ⟨hleft, ?_⟩
    apply lastValue_of_same h
    · simp [parse, ha, hr]
    · simp [parse, hb]
  · intro h
    obtain ⟨rfl, h⟩ := h
    apply sameReading_of ha hb
    intro name
    rw [hr]
    exact lookup_alike h name

theorem same_reading_taken {a b line tail tail' : Bytes} {lines lines' : List Bytes}
    (h : Respelled a b line lines lines' tail tail') {req : HttpRequest} (hs : req.parseState = .headers)
    (h0 : req.body = []) (hempty : req.headers = ∅)
    (hd : ∀ t, Reader.drain parseRound .fresh (line ++ crlf ++ t) = Reader.drain parseRound req t) :
    SameReading a b ↔ tail = tail' ∧ ∀ name, lastValue name lines = lastValue name lines' := by
  have ha : Reader.drain parseRound .fresh a = Reader.drain parseRound req (glue lines ++ tail) := by rw [h.left, hd]
  have hb : Reader.drain parseRound .fresh b = Reader.drain parseRound req (glue lines' ++ tail') := by rw [h.right, hd]
  rcases h.ended with ⟨⟨rest, rfl⟩, ⟨rest', rfl⟩⟩ | ⟨hstuck, hstuck'⟩
  · rw [drain_section hs h.left_lines, hempty] at ha
    rw [drain_section hs h.right_lines, hempty] at hb
    rw [List.append_cancel_left_eq]
    exact @same_reading_ended a b rest rest' lines lines' { req with headers := withLines ∅ lines } h0 rfl ha hb
  · rw [drain_unended hs h.left_lines hstuck, hempty] at ha
    rw [drain_unended hs h.right_lines hstuck', hempty] at hb
    exact @same_reading_unended a b tail tail' lines lines' { req with headers := withLines ∅ lines } rfl ha hb

/-- A request line that is not taken leaves all bytes unread, the fields among them. -/
theorem same_reading_rejected {a b line tail tail' : Bytes} {lines lines' : List Bytes}
    (h : Respelled a b line lines lines' tail tail') {req : HttpRequest}
    (hd : ∀ t, Reader.drain parseRound .fresh (line ++ crlf ++ t) = (none, req, line ++ crlf ++ t)) :
    SameReading a b ↔ a = b := by
  refine ⟨?_, sameReading_of_eq⟩
  intro hsame
  have hleft := hsame.leftover
  rw [h.left, h.right] at hleft ⊢
  simp only [parse, hd] at hleft
  exact hleft

/-- The server reads respelled streams alike exactly when they are the same, or the request
    line is taken and every spelling of a name has the same last value in both. -/
theorem same_reading_iff {a b line tail tail' : Bytes} {lines lines' : List Bytes}
    (h : Respelled a b line lines lines' tail tail') :
    SameReading a b ↔ a = b ∨ (∃ token method path version, RequestLine line token method path version) ∧
      tail = tail' ∧ ∀ name, lastValue name lines = lastValue name lines' := by
  rcases @drain_firstLine line h.first_clear .fresh rfl with
    ⟨token, method, path, version, hline, hd⟩ | ⟨method, hno, hd⟩
  · have hkey := same_reading_taken h rfl rfl rfl hd
    refine ⟨?_, ?_⟩
    · intro hsame
      exact .inr ⟨⟨token, method, path, version, hline⟩, hkey.mp hsame⟩
    · intro hcond
      rcases hcond with heq | ⟨-, hsame⟩
      · exact sameReading_of_eq heq
      · exact hkey.mpr hsame
  · rw [same_reading_rejected h hd]
    refine ⟨?_, ?_⟩
    · exact .inl
    · intro hcond
      rcases hcond with heq | ⟨hline, -⟩
      · exact heq
      · exact absurd hline hno

/-- Two spellings of one name with one value, in either order: read alike. -/
theorem both_spellings_alike :
    SameReading (ascii "GET / HTTP/1.1\r\nHost: a\r\nhost: a\r\n\r\n")
      (ascii "GET / HTTP/1.1\r\nhost: a\r\nHost: a\r\n\r\n") := by
  have hlines : ∀ lines ∈ [[ascii "Host: a", ascii "host: a"], [ascii "host: a", ascii "Host: a"]],
      HeaderLines lines := by
    unfold HeaderLines
    decide
  have hrespelled : Respelled (ascii "GET / HTTP/1.1\r\nHost: a\r\nhost: a\r\n\r\n")
      (ascii "GET / HTTP/1.1\r\nhost: a\r\nHost: a\r\n\r\n") (ascii "GET / HTTP/1.1")
      [ascii "Host: a", ascii "host: a"] [ascii "host: a", ascii "Host: a"] crlf crlf :=
    ⟨by decide, by decide, by decide, hlines _ (by simp), hlines _ (by simp),
      .cons ⟨by decide, by decide⟩ (.cons ⟨by decide, by decide⟩ .nil),
      .inl ⟨List.prefix_refl _, List.prefix_refl _⟩, rfl⟩
  rw [same_reading_iff hrespelled]
  refine .inr ⟨⟨ascii "GET", .get, ascii "/", ascii "HTTP/1.1", ⟨by decide, by decide, by decide, by decide⟩⟩,
    rfl, ?_⟩
  intro name
  have hnames : headerName (ascii "Host: a") = ascii "Host" ∧ headerName (ascii "host: a") = ascii "host" := by decide
  have hvalues : headerValue (ascii "Host: a") = ascii "a" ∧ headerValue (ascii "host: a") = ascii "a" := by decide
  simp only [lastValue_cons, hnames, hvalues]
  by_cases hupper : ascii "Host" = name
  · by_cases hlower : ascii "host" = name
    · simp [hupper, hlower]
    · simp [hupper, hlower]
  · by_cases hlower : ascii "host" = name
    · simp [hupper, hlower]
    · simp [hupper, hlower]

/-- Lower-case names: the connection is not kept alive, and the body is not read but left as
    the start of the next request. -/
theorem lower_case_length_ignored :
    let a := ascii "POST / HTTP/1.1\r\nConnection: keep-alive\r\nContent-Length: 5\r\n\r\nhello"
    let b := ascii "POST / HTTP/1.1\r\nconnection: keep-alive\r\ncontent-length: 5\r\n\r\nhello"
    (∃ line lines lines' tail, Respelled a b line lines lines' tail tail) ∧ ¬ SameReading a b ∧
      (parse .fresh a).2.1.body = ascii "hello" ∧ (parse .fresh a).2.2 = [] ∧
      wantsKeepAlive (parse .fresh a).2.1 = true ∧
      (parse .fresh b).2.1.body = [] ∧ (parse .fresh b).2.2 = ascii "hello" ∧
      wantsKeepAlive (parse .fresh b).2.1 = false := by
  have hlines : ∀ lines ∈ [[ascii "Connection: keep-alive", ascii "Content-Length: 5"],
      [ascii "connection: keep-alive", ascii "content-length: 5"]], HeaderLines lines := by
    unfold HeaderLines
    decide
  refine ⟨⟨ascii "POST / HTTP/1.1", [ascii "Connection: keep-alive", ascii "Content-Length: 5"],
    [ascii "connection: keep-alive", ascii "content-length: 5"], ascii "\r\nhello", ?_⟩, ?_, by decide, by decide,
    by decide, by decide, by decide, by decide⟩
  · exact ⟨by decide, by decide, by decide, hlines _ (by simp), hlines _ (by simp),
      .cons ⟨by decide, by decide⟩ (.cons ⟨by decide, by decide⟩ .nil), .inl ⟨by decide, by decide⟩, rfl⟩
  · intro h
    exact absurd h.leftover (by decide)

end BreWebServer.Server
