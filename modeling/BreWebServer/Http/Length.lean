/-
  BreWebServer.Http.Length — what a `Content-Length` value does to `Parse`.

  (1) `parse_returns_iff`: a call of `Parse` returns, whatever the request holds and the
  buffer contains, unless it reads a blank line with a stored length that `std::stoull`
  refuses; an exception then leaves it, the blank line consumed and the state still
  `HEADERS` (`parse_refused`, `bad_length_throws`).

  (2) `framed_iff`: `std::stoull` also takes blanks, a sign and anything behind the digits,
  and of several lines only the last is read, so an accepted request has the body that
  its `Content-Length` lines say unless one of them is not plain digits or two of them
  differ (`loose_lengths_accepted`).
-/

import BreWebServer.Http.HeaderSection

namespace BreWebServer.Http

open BreWebServer.Lib BreWebServer.Cpp

/-! ## (1) A refused length -/

/-- Header lines and a blank line, after which the stored length is one that `std::stoull`
    refuses. -/
def RefusedLines (hs : Headers) (b : Bytes) : Prop :=
  ∃ lines value e rest, HeaderLines lines ∧ b = glue lines ++ crlf ++ rest ∧
    (lastValue contentLengthKey lines).or (hs.lookup contentLengthKey) = some value ∧ stoull value = .error e

/-- The unread bytes run into a refused length from where the parser stands. -/
def Refused (req : HttpRequest) (b : Bytes) : Prop :=
  match req.parseState with
  | .requestLine => ∃ line token method path version rest, RequestLine line token method path version ∧
      b = line ++ crlf ++ rest ∧ RefusedLines req.headers rest
  | .headers => RefusedLines req.headers b
  | .body => False
  | .finish => False

theorem drain_refusedLines {req : HttpRequest} (hs : req.parseState = .headers) {b : Bytes}
    (h : RefusedLines req.headers b) : ∃ e lines rest, b = glue lines ++ crlf ++ rest ∧
      Reader.drain parseRound req b =
        (some (.threw e), { req with headers := withLines req.headers lines }, rest) := by
  obtain ⟨lines, value, e, rest, hlines, rfl, hv, hn⟩ := h
  refine ⟨e, lines, rest, rfl, ?_⟩
  rw [List.append_assoc, drain_section hs hlines]
  simp only [bodyStep, lookup_withLines, hv, hn]

theorem refusedLines_of_drain {req : HttpRequest} (hs : req.parseState = .headers) {b : Bytes} {e : Exc}
    (h : (Reader.drain parseRound req b).1 = some (.threw e)) : RefusedLines req.headers b := by
  obtain ⟨lines, tail, hlines, rfl, hend⟩ := lines_of b
  rcases hend with ⟨rest, rfl⟩ | hstuck
  · rw [drain_section hs hlines] at h
    unfold bodyStep at h
    simp only [lookup_withLines] at h
    cases hv : (lastValue contentLengthKey lines).or (req.headers.lookup contentLengthKey) with
    | none => simp [hv] at h
    | some value =>
      cases hn : stoull value with
      | error e' => exact ⟨lines, value, e', rest, hlines, by simp, hv, hn⟩
      | ok n =>
        simp only [hv, hn] at h
        split at h <;> simp at h
  · rw [drain_unended hs hlines hstuck] at h
    simp at h

/-- A refused length: an exception, the blank line consumed, the state still `headers`. -/
theorem parse_refused {req : HttpRequest} {b : Bytes} (h : Refused req b) :
    ∃ e head, (parse req b).1 = .threw e ∧ (parse req b).2.1.parseState = .headers ∧
      b = head ++ crlf ++ (parse req b).2.2 := by
  unfold Refused at h
  split at h
  · rename_i hs
    obtain ⟨line, token, method, path, version, rest, hline, rfl, hr⟩ := h
    rcases drain_firstLine hline.clear hs with ⟨_, method, path, version, -, hd⟩ | ⟨_, hno, -⟩
    · obtain ⟨e, lines, rest, rfl, hd'⟩ :=
        @drain_refusedLines { req with method, path, version, parseState := .headers } rfl _ hr
      rw [← hd] at hd'
      refine ⟨e, line ++ crlf ++ glue lines, ?_⟩
      rw [parse_of_halt hd']
      exact ⟨rfl, rfl, by simp⟩
    · exact absurd ⟨token, method, path, version, hline⟩ hno
  · rename_i hs
    obtain ⟨e, lines, rest, rfl, hd⟩ := drain_refusedLines hs h
    refine ⟨e, glue lines, ?_⟩
    rw [parse_of_halt hd]
    exact ⟨rfl, hs, rfl⟩
  · exact h.elim
  · exact h.elim

theorem refused_of_threw {req : HttpRequest} {b : Bytes} {e : Exc}
    (h : (Reader.drain parseRound req b).1 = some (.threw e)) : Refused req b := by
  unfold Refused
  cases hs : req.parseState with
  | requestLine =>
    cases hc : cut crlf b with
    | none =>
      have hw : parseRound req b = .wait req := by simp only [parseRound, hs, hc]
      rw [Reader.drain_wait hw] at h
      cases h
    | some p =>
      obtain ⟨line, rest⟩ := p
      obtain ⟨rfl, hl⟩ := cut_crlf_eq hc
      rcases drain_firstLine hl hs with ⟨token, method, path, version, hline, hd⟩ | ⟨method, -, hd⟩
      · rw [hd] at h
        exact ⟨line, token, method, path, version, rest, hline, rfl,
          @refusedLines_of_drain { req with method, path, version, parseState := .headers } rfl rest e h⟩
      · rw [hd] at h
        cases h
  | headers => exact refusedLines_of_drain hs h
  | body =>
    by_cases hle : req.contentLength ≤ b.length
    · have hh : parseRound req b = .halt (.returned true)
          { req with body := b.take req.contentLength, parseState := .finish } (b.drop req.contentLength) := by
        simp only [parseRound, hs, hle, if_true]
      rw [Reader.drain_halt hh] at h
      cases h
    · have hw : parseRound req b = .wait req := by simp only [parseRound, hs, hle, if_false]
      rw [Reader.drain_wait hw] at h
      cases h
  | finish =>
    have hh : parseRound req b = .halt (.returned true) req b := by simp only [parseRound, hs]
    rw [Reader.drain_halt hh] at h
    cases h

theorem parse_returns_of {req : HttpRequest} {b : Bytes} (h : ¬ Refused req b) :
    ∃ v, (parse req b).1 = .returned v := by
  cases hd : (Reader.drain parseRound req b).1 with
  | none => exact ⟨false, by simp [parse, hd, toOutcome]⟩
  | some o =>
    cases o with
    | returned v => exact ⟨v, by simp [parse, hd, toOutcome]⟩
    | threw e => exact absurd (refused_of_threw hd) h

theorem returns_iff (req : HttpRequest) (b : Bytes) : (∃ v, (parse req b).1 = .returned v) ↔ ¬ Refused req b := by
  refine ⟨?_, parse_returns_of⟩
  intro ⟨v, hv⟩ hr
  obtain ⟨e, head, he, -, -⟩ := parse_refused hr
  rw [hv] at he
  cases he

/-- `Parse` returns exactly when it does not run into a refused length: one call, from
    whatever state; and all the calls made while a request's bytes arrive in pieces. -/
theorem parse_returns_iff (req : HttpRequest) (b : Bytes) (cs : List Bytes) :
    ((∃ v, (parse req b).1 = .returned v) ↔ ¬ Refused req b) ∧
    ((∃ v, (feed .fresh [] cs).1 = .returned v) ↔ ¬ Refused .fresh cs.flatten) := by
  rw [incremental_parse_eq_whole]
  exact ⟨returns_iff req b, returns_iff .fresh cs.flatten⟩

/-- An empty, a non-numeric and an oversized length: each leaves through an exception, the
    blank line consumed and the state still `headers`. -/
theorem bad_length_throws :
    let withLength := fun value =>
      parse .fresh (ascii "GET / HTTP/1.1\r\nContent-Length: " ++ value ++ ascii "\r\n\r\n")
    ((withLength []).1 = .threw .invalidArgument ∧ (withLength []).2.1.parseState = .headers ∧
      (withLength []).2.2 = []) ∧
    (withLength (ascii "abc")).1 = .threw .invalidArgument ∧
    (withLength (ascii "18446744073709551616")).1 = .threw .outOfRange := by
  decide

/-! ## (2) A length read loosely -/

/-- `b` is a first line, header lines and a blank line, followed by `behind`. -/
structure Head (b line : Bytes) (lines : List Bytes) (behind : Bytes) : Prop where
  shape : b = line ++ crlf ++ (glue lines ++ crlf ++ behind)
  first_clear : ¬ crlf <:+: line
  header_lines : HeaderLines lines

theorem head_unique {b line line' behind behind' : Bytes} {lines lines' : List Bytes} (h : Head b line lines behind)
    (h' : Head b line' lines' behind') : line = line' ∧ lines = lines' ∧ behind = behind' := by
  have hcut := cut_crlf h.first_clear (glue lines ++ crlf ++ behind)
  rw [← h.shape, h'.shape, cut_crlf h'.first_clear] at hcut
  simp only [Option.some.injEq, Prod.mk.injEq] at hcut
  obtain ⟨rfl, hglue⟩ := hcut
  obtain ⟨rfl, rfl⟩ := glue_inj lines (fun l hl => ⟨(h.header_lines l hl).1, (h.header_lines l hl).2.2⟩)
    (fun l hl => ⟨(h'.header_lines l hl).1, (h'.header_lines l hl).2.2⟩) hglue.symm
  exact ⟨rfl, rfl, rfl⟩

/-- One or more ASCII digits. -/
def Numeral (value : Bytes) : Prop := value ≠ [] ∧ ∀ c ∈ value, isDigit c = true

/-- If `Parse` takes `b`, each of its `Content-Length` lines is a numeral below 2^64 that
    denotes the length of the body, which begins right behind the blank line. -/
def Framed (b : Bytes) : Prop :=
  ∀ req rest, parse .fresh b = (.returned true, req, rest) →
    ∃ line lines, Head b line lines (req.body ++ rest) ∧ ∀ l ∈ lines, headerName l = contentLengthKey →
      Numeral (headerValue l) ∧ digitsValue (headerValue l) = req.body.length ∧ req.body.length < 2 ^ 64

/-- Some `Content-Length` line is no numeral, or two of them denote different numbers. -/
def Loose (lines : List Bytes) : Prop :=
  ∃ l ∈ lines, headerName l = contentLengthKey ∧ (¬ Numeral (headerValue l) ∨
    ∃ l' ∈ lines, headerName l' = contentLengthKey ∧ digitsValue (headerValue l) ≠ digitsValue (headerValue l'))

/-- A request line, loose lines and enough bytes for a body: the last `Content-Length` value
    has digits below 2^64, behind blanks and a sign maybe and before whatever; they, or what
    they wrap to under a minus, are no more than the bytes behind the blank line. -/
def Misread (b : Bytes) : Prop :=
  ∃ line token method path version lines behind value blanks sign digits junk,
    RequestLine line token method path version ∧ Head b line lines behind ∧ Loose lines ∧
    lastValue contentLengthKey lines = some value ∧ NumberParts value blanks sign digits junk ∧
    digitsValue digits < 2 ^ 64 ∧
    (if sign = [45] then (2 ^ 64 - digitsValue digits) % 2 ^ 64 else digitsValue digits) ≤ behind.length

theorem lastValue_mem {name value : Bytes} {lines : List Bytes} (h : lastValue name lines = some value) :
    ∃ l ∈ lines, headerName l = name ∧ headerValue l = value := by
  unfold lastValue at h
  obtain ⟨l, hf, rfl⟩ := Option.map_eq_some_iff.mp h
  have hm := List.mem_of_find?_eq_some hf
  have hn := List.find?_some hf
  exact ⟨l, List.mem_reverse.mp hm, by simpa using hn, rfl⟩

theorem lastValue_of_mem {name l : Bytes} {lines : List Bytes} (hl : l ∈ lines) (hn : headerName l = name) :
    ∃ value, lastValue name lines = some value := by
  cases hf : lines.reverse.find? (headerName · == name) with
  | none =>
    have := List.find?_eq_none.mp hf l (List.mem_reverse.mpr hl)
    simp [hn] at this
  | some l' => exact ⟨headerValue l', by simp [lastValue, hf]⟩

theorem isRequest_head {b token path version body rest : Bytes} {method : HttpMethod} {lines : List Bytes}
    (h : IsRequest b token method path version lines body rest) :
    RequestLine (requestLine token path version) token method path version ∧
      Head b (requestLine token path version) lines (body ++ rest) :=
  ⟨⟨rfl, h.token_mem, h.path_clear, h.first_clear⟩, ⟨h.shape, h.first_clear, h.line_ok⟩⟩

/-- A misread request is taken, with a body that not all its lines announce. -/
theorem not_framed_of_misread {b : Bytes} (h : Misread b) : ¬ Framed b := by
  obtain ⟨_, token, method, path, version, lines, behind, value, blanks, sign, digits, junk,
    ⟨rfl, htoken, hpath, hclear⟩, hhead, ⟨l, hl, hname, hloose⟩, hlast, hparts, hlt, hle⟩ := h
  generalize hn : (if sign = [45] then (2 ^ 64 - digitsValue digits) % 2 ^ 64 else digitsValue digits) = n at hle
  have hread : stoull value = .ok n := stoull_ok_iff.mpr ⟨blanks, sign, digits, junk, hparts, hlt, hn.symm⟩
  have hreq : IsRequest b token method path version lines (behind.take n) (behind.drop n) := by
    refine ⟨?_, htoken, hpath, hclear, hhead.header_lines, ?_⟩
    · rw [List.take_append_drop]
      exact hhead.shape
    · simp only [Announced, hlast, List.length_take_of_le hle]
      exact hread
  obtain ⟨k, hparse⟩ := parse_of_isRequest hreq
  intro hframed
  obtain ⟨line, lines', hhead', hall⟩ := hframed _ _ hparse
  obtain ⟨-, rfl, -⟩ := head_unique hhead hhead'
  obtain ⟨hnum, hval, -⟩ := hall l hl hname
  rcases hloose with hno | ⟨l', hl', hname', hdiff⟩
  · exact hno hnum
  · apply hdiff
    rw [hval, (hall l' hl' hname').2.1]

/-- The body is framed as its lines say exactly when the request is not misread. -/
theorem framed_iff (b : Bytes) : Framed b ↔ ¬ Misread b := by
  refine ⟨fun hf hm => not_framed_of_misread hm hf, ?_⟩
  intro hno req rest hparse
  obtain ⟨token, method, path, version, lines, body, hreq⟩ :=
    isRequest_of_parse (by rw [hparse] : (parse .fresh b).1 = _)
  rw [hparse] at hreq
  obtain ⟨k, hparse'⟩ := parse_of_isRequest hreq
  rw [hparse] at hparse'
  simp only [Prod.mk.injEq, true_and, and_true] at hparse'
  subst hparse'
  obtain ⟨hline, hhead⟩ := isRequest_head hreq
  refine ⟨_, lines, hhead, ?_⟩
  -- With a length announced, the lines are not loose, so all of them are what was read.
  intro l hl hname
  obtain ⟨value, hlast⟩ := lastValue_of_mem hl hname
  have hread : stoull value = .ok body.length := by
    have := hreq.body_length
    simpa only [Announced, hlast] using this
  have hstrict : ¬ Loose lines := by
    intro hloose
    obtain ⟨blanks, sign, digits, junk, hparts, hlt, hn⟩ := stoull_ok_iff.mp hread
    exact hno ⟨_, token, method, path, version, lines, _, value, blanks, sign, digits, junk, hline, hhead, hloose,
      hlast, hparts, hlt, by rw [← hn]; simp⟩
  have hnum : ∀ m ∈ lines, headerName m = contentLengthKey → Numeral (headerValue m) := by
    intro m hm hname
    by_contra hnot
    exact hstrict ⟨m, hm, hname, .inl hnot⟩
  obtain ⟨last, hmem, hname', rfl⟩ := lastValue_mem hlast
  have hsame : digitsValue (headerValue l) = digitsValue (headerValue last) := by
    by_contra hdiff
    exact hstrict ⟨l, hl, hname, .inr ⟨last, hmem, hname', hdiff⟩⟩
  obtain ⟨hne, hdigits⟩ := hnum last hmem hname'
  refine ⟨hnum l hl hname, ?_, stoull_lt hread⟩
  rw [hsame, stoull_digits hne hdigits hread]

/-- A sign, something behind the digits, a list, a wrapped negative number, two lines that
    differ: all taken, with five bytes of body. -/
theorem loose_lengths_accepted :
    (∀ value ∈ [ascii "+5", ascii "5abc", ascii "5, 7", ascii "-18446744073709551611",
        ascii "7\r\nContent-Length: 5"],
      let out := parse .fresh (ascii "POST / HTTP/1.1\r\nContent-Length: " ++ value ++ ascii "\r\n\r\nhello")
      out.1 = .returned true ∧ out.2.1.body = ascii "hello") ∧
    ¬ Framed (ascii "POST / HTTP/1.1\r\nContent-Length: +5\r\n\r\nhello") := by
  refine ⟨by decide, not_framed_of_misread ?_⟩
  refine ⟨ascii "POST / HTTP/1.1", ascii "POST", .post, ascii "/", ascii "HTTP/1.1", [ascii "Content-Length: +5"],
    ascii "hello", ascii "+5", [], [43], ascii "5", [], ⟨by decide, by decide, by decide, by decide⟩,
    ⟨by decide, by decide, ?_⟩, ?_, by decide, ⟨by decide, by simp, by decide, by decide, List.all_eq_true.mp (by decide), by simp⟩, by decide, by decide⟩
  · unfold HeaderLines
    decide
  · refine ⟨_, List.mem_singleton_self _, by decide, .inl ?_⟩
    intro ⟨_, hdigits⟩
    exact absurd (hdigits 43 (by decide)) (by decide)

end BreWebServer.Http
