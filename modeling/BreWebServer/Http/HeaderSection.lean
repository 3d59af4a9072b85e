/-
  BreWebServer.Http.HeaderSection — what `Parse` makes of any bytes at all.

  Any bytes are header lines and an end of them (`lines_of`): a blank line, a line that is
  not finished, or one without a colon. `Parse` stores the lines; a blank line's effect
  hangs on the stored `Content-Length` alone (`drain_section`); at the other ends it waits
  (`drain_unended`). A request line is taken, or all bytes stay unread (`drain_firstLine`).
-/

import BreWebServer.Http.Parsing

namespace BreWebServer.Http

open BreWebServer.Lib BreWebServer.Cpp

/-- Lines that `_parseHeader` takes. -/
def HeaderLines (lines : List Bytes) : Prop := ∀ l ∈ lines, l ≠ [] ∧ colon ∈ l ∧ ¬ crlf <:+: l

/-- Bytes at which the loop over the header lines stops and waits. -/
def Stuck (b : Bytes) : Prop := ¬ crlf <:+: b ∨ ∃ l rest, b = l ++ crlf ++ rest ∧ l ≠ [] ∧ colon ∉ l ∧ ¬ crlf <:+: l

theorem headerLines_cons {l : Bytes} {lines : List Bytes} :
    HeaderLines (l :: lines) ↔ (l ≠ [] ∧ colon ∈ l ∧ ¬ crlf <:+: l) ∧ HeaderLines lines := List.forall_mem_cons

theorem lines_of (b : Bytes) :
    ∃ lines tail, HeaderLines lines ∧ b = glue lines ++ tail ∧ (crlf <+: tail ∨ Stuck tail) := by
  cases hc : cut crlf b with
  | none =>
    have hstuck : Stuck b := .inl ((cut_eq_none_iff crlf_ne_nil b).mp hc)
    exact ⟨[], b, by simp [HeaderLines], rfl, .inr hstuck⟩
  | some p =>
    obtain ⟨l, rest⟩ := p
    obtain ⟨he, hl⟩ := cut_crlf_eq hc
    by_cases hnil : l = []
    · subst hnil
      exact ⟨[], b, by simp [HeaderLines], rfl, .inl ⟨rest, he.symm⟩⟩
    by_cases hcolon : colon ∈ l
    · have : rest.length < b.length := cut_crlf_shorter hc
      obtain ⟨lines, tail, hlines, hrest, hend⟩ := lines_of rest
      refine ⟨l :: lines, tail, headerLines_cons.mpr ⟨⟨hnil, hcolon, hl⟩, hlines⟩, ?_, hend⟩
      rw [he, hrest]
      simp [glue]
    · exact ⟨[], b, by simp [HeaderLines], rfl, .inr (.inr ⟨l, rest, he, hnil, hcolon, hl⟩)⟩
termination_by b.length

/-! ## The end of the lines -/

theorem drain_stuck {req : HttpRequest} (hs : req.parseState = .headers) {b : Bytes} (h : Stuck b) :
    Reader.drain parseRound req b = (none, req, b) := by
  apply Reader.drain_wait
  rcases h with h | ⟨l, rest, rfl, hnil, hcolon, hl⟩
  · simp only [parseRound, hs, (cut_eq_none_iff crlf_ne_nil b).mpr h]
  · have hp : ∀ req, parseHeader req l = (false, req) := by
      rcases parseHeader_cases l with ⟨key, value, rfl, -, -⟩ | ⟨-, hp⟩
      · simp at hcolon
      · exact hp
    simp only [parseRound, hs, cut_crlf hl, headerRound, hnil, if_false, hp]

/-- A whole header section: the lines are stored, then the blank line counts. -/
theorem drain_section {req : HttpRequest} (hs : req.parseState = .headers) {lines : List Bytes}
    (hl : HeaderLines lines) (rest : Bytes) : Reader.drain parseRound req (glue lines ++ (crlf ++ rest)) =
      bodyStep { req with headers := withLines req.headers lines } rest := by
  rw [drain_lines lines hl _ hs]
  apply drain_blankLine
  exact hs

/-- A section without its end: the lines are stored, the rest stays unread. -/
theorem drain_unended {req : HttpRequest} (hs : req.parseState = .headers) {lines : List Bytes}
    (hl : HeaderLines lines) {tail : Bytes} (ht : Stuck tail) : Reader.drain parseRound req (glue lines ++ tail) =
      (none, { req with headers := withLines req.headers lines }, tail) := by
  rw [drain_lines lines hl _ hs]
  apply drain_stuck _ ht
  exact hs

/-! ## The request line -/

/-- A line that `_parseRequestLine` takes. -/
structure RequestLine (line token : Bytes) (method : HttpMethod) (path version : Bytes) : Prop where
  shape : line = requestLine token path version
  token_mem : (token, method) ∈ methodTable
  path_clear : sp ∉ path
  clear : ¬ crlf <:+: line

/-- A first line is taken, or stays unread with all that is behind it. -/
theorem drain_firstLine {line : Bytes} (hl : ¬ crlf <:+: line) {req : HttpRequest}
    (hs : req.parseState = .requestLine) :
    (∃ token method path version, RequestLine line token method path version ∧
      ∀ b, Reader.drain parseRound req (line ++ crlf ++ b) =
        Reader.drain parseRound { req with method, path, version, parseState := .headers } b) ∨
    (∃ method, (¬ ∃ token method path version, RequestLine line token method path version) ∧
      ∀ b, Reader.drain parseRound req (line ++ crlf ++ b) = (none, { req with method }, line ++ crlf ++ b)) := by
  rcases parseRequestLine_cases line with ⟨token, path, version, rfl, ht, hp, hm, hr⟩ | ⟨f, -, hr⟩
  · left
    refine ⟨token, _, path, version, ⟨rfl, mem_methodTable.mpr ⟨rfl, hm⟩, hp, hl⟩, ?_⟩
    intro b
    apply Reader.drain_next resumable
    simp only [parseRound, hs, cut_crlf hl, requestLineRound, hr]
  · right
    refine ⟨f req.method, ?_, ?_⟩
    · intro htaken
      obtain ⟨token, method, path, version, h⟩ := htaken
      have hacc := @parseRequestLine_accepts token path version method h.token_mem h.path_clear req
      rw [← h.shape, hr] at hacc
      cases hacc
    · intro b
      apply Reader.drain_wait
      simp only [parseRound, hs, cut_crlf hl, requestLineRound, hr]

end BreWebServer.Http
