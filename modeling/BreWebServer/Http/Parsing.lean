/-
  BreWebServer.Http.Parsing — what `HttpRequest::Parse` accepts, and that it does not
  matter how its input arrives.

  (1) Incremental parsing (`incremental_parse_eq_whole`): appending the pieces of a byte
  string one at a time and calling `Parse` after each gives the outcome, the request and
  the unread bytes of one call on the whole string.

  (2) The grammar (`parse_accepts_grammar`): `Parse` on a fresh request returns true
  exactly on a request line, header lines, a blank line and a body of the announced
  length, followed by anything; the parts are unique and are what the getters return.
-/

import BreWebServer.Http.Request

namespace BreWebServer.Http

open BreWebServer.Lib BreWebServer.Cpp

/-! ## The rounds of `Parse` -/

theorem crlf_ne_nil : crlf ≠ [] := by decide

/-- What `_parseRequestLine` does: it accepts a method token, a path and a version, or it
    rejects the line, whatever the request holds, and stores at most a method. -/
theorem parseRequestLine_cases (line : Bytes) :
    (∃ token path version, line = token ++ sp :: (path ++ sp :: version) ∧ sp ∉ token ∧ sp ∉ path ∧
      stringToMethod token ≠ .invalid ∧
      ∀ req, parseRequestLine req line = (true, { req with method := stringToMethod token, path, version })) ∨
    (∃ f : HttpMethod → HttpMethod, (∀ m, f (f m) = f m) ∧
      ∀ req, parseRequestLine req line = (false, { req with method := f req.method })) := by
  unfold parseRequestLine
  cases hm : cut [sp] line with
  | none => exact Or.inr ⟨id, fun _ => rfl, fun _ => rfl⟩
  | some p =>
    obtain ⟨token, rest⟩ := p
    by_cases hi : stringToMethod token = .invalid
    · exact Or.inr ⟨fun _ => stringToMethod token, fun _ => rfl, fun req => by simp [hi]⟩
    cases hv : cut [sp] rest with
    | none => exact Or.inr ⟨fun _ => stringToMethod token, fun _ => rfl, fun req => by simp [hi, hv]⟩
    | some q =>
      obtain ⟨path, version⟩ := q
      obtain ⟨rfl, ht⟩ := cut_one_iff.mp hm
      obtain ⟨rfl, hp⟩ := cut_one_iff.mp hv
      exact Or.inl ⟨token, path, version, rfl, ht, hp, hi, fun req => by simp [hi, hv]⟩

theorem parseHeader_cases (line : Bytes) :
    (∃ key value, line = key ++ colon :: value ∧ colon ∉ key ∧ ∀ req, parseHeader req line =
      (true, { req with headers := req.headers.insert key (value.dropWhile (· == sp)) })) ∨
    (colon ∉ line ∧ ∀ req, parseHeader req line = (false, req)) := by
  unfold parseHeader
  cases hc : cut [colon] line with
  | none => exact Or.inr ⟨cut_one_none_iff.mp hc, fun _ => rfl⟩
  | some p =>
    obtain ⟨key, value⟩ := p
    obtain ⟨rfl, hk⟩ := cut_one_iff.mp hc
    exact Or.inl ⟨key, value, rfl, hk, fun _ => rfl⟩

theorem requestLineRound_append (req : HttpRequest) (line : Bytes) (rest c : Buffer) :
    requestLineRound req line (rest ++ c) = (requestLineRound req line rest).extend c := by
  unfold requestLineRound
  split <;> rfl

theorem headerRound_append (req : HttpRequest) (line : Bytes) (rest c : Buffer) :
    headerRound req line (rest ++ c) = (headerRound req line rest).extend c := by
  unfold headerRound
  repeat' split
  all_goals rfl

theorem requestLineRound_wait {req req' : HttpRequest} {line : Bytes} {rest : Buffer}
    (h : requestLineRound req line rest = .wait req') :
    req'.parseState = req.parseState ∧ ∀ rest, requestLineRound req' line rest = requestLineRound req line rest := by
  unfold requestLineRound at h ⊢
  rcases parseRequestLine_cases line with ⟨_, _, _, _, _, _, _, ha⟩ | ⟨f, hf, hr⟩
  · simp [ha] at h
  · simp only [hr, Round.wait.injEq] at h ⊢
    subst h
    simp [hf]

theorem headerRound_wait {req req' : HttpRequest} {line : Bytes} {rest : Buffer}
    (h : headerRound req line rest = .wait req') : req' = req := by
  unfold headerRound at h
  split at h
  · repeat' split at h
    all_goals cases h
  · rcases parseHeader_cases line with ⟨_, _, _, _, ha⟩ | ⟨_, hr⟩
    · simp [ha] at h
    · simp only [hr, Round.wait.injEq] at h
      exact h.symm

theorem requestLineRound_next {req req' : HttpRequest} {line : Bytes} {rest rest' : Buffer}
    (h : requestLineRound req line rest = .next req' rest') : rest' = rest := by
  unfold requestLineRound at h
  split at h <;> cases h
  rfl

theorem headerRound_next {req req' : HttpRequest} {line : Bytes} {rest rest' : Buffer}
    (h : headerRound req line rest = .next req' rest') : rest' = rest := by
  unfold headerRound at h
  repeat' split at h
  all_goals cases h
  all_goals rfl

theorem cut_crlf_shorter {b line rest : Bytes} (h : cut crlf b = some (line, rest)) : rest.length < b.length := by
  have := cut_length h
  simp only [crlf, List.length_cons, List.length_nil] at this
  omega

theorem resumable : Reader.Resumable parseRound where
  shorter := by
    intro req b req' rest h
    unfold parseRound at h
    split at h
    · split at h
      · cases h
      · rename_i hc; rw [requestLineRound_next h]; exact cut_crlf_shorter hc
    · split at h
      · cases h
      · rename_i hc; rw [headerRound_next h]; exact cut_crlf_shorter hc
    · split at h <;> cases h
    · cases h
  append := by
    intro req b hw c
    unfold parseRound at hw ⊢
    split
    · cases hc : cut crlf b with
      | none => simp [*] at hw
      | some p => simp only [cut_append crlf_ne_nil hc]; exact requestLineRound_append _ _ _ _
    · cases hc : cut crlf b with
      | none => simp [*] at hw
      | some p => simp only [cut_append crlf_ne_nil hc]; exact headerRound_append _ _ _ _
    · by_cases hl : req.contentLength ≤ b.length
      · have : req.contentLength ≤ b.length + c.length := by omega
        simp [hl, this, Round.extend, List.take_append_of_le_length hl, List.drop_append_of_le_length hl]
      · simp [*] at hw
    · rfl
  wait_append := by
    intro req b req' h c
    unfold parseRound at h
    split at h
    · rename_i hs
      cases hc : cut crlf b with
      | none => simp only [hc, Round.wait.injEq] at h; rw [h]
      | some p =>
        obtain ⟨line, rest⟩ := p
        simp only [hc] at h
        obtain ⟨hs', hr⟩ := requestLineRound_wait h
        simp only [parseRound, hs', hs, cut_append crlf_ne_nil hc]
        exact hr _
    · cases hc : cut crlf b with
      | none => simp only [hc, Round.wait.injEq] at h; rw [h]
      | some p => simp only [hc] at h; rw [headerRound_wait h]
    · split at h <;> cases h
      rfl
    · cases h

/-! ## (1) Incremental parsing -/

theorem parse_of_wait {req req' : HttpRequest} {b b' : Buffer}
    (h : Reader.drain parseRound req b = (none, req', b')) : parse req b = (.returned false, req', b') := by
  simp [parse, h, toOutcome]

theorem parse_of_halt {req req' : HttpRequest} {b b' : Buffer} {o : Outcome}
    (h : Reader.drain parseRound req b = (some o, req', b')) : parse req b = (o, req', b') := by
  simp [parse, h, toOutcome]

/-- A round never returns false by halting. -/
theorem halt_ne_false (req : HttpRequest) (b : Buffer) :
    (Reader.drain parseRound req b).1 ≠ some (.returned false) := by
  refine Reader.drain_induction resumable (P := fun _ _ out => out.1 ≠ some (.returned false)) ?_ ?_ ?_ req b
  · intro _ _ _ _; simp
  · intro req b r req' rest h
    unfold parseRound requestLineRound headerRound at h
    repeat' split at h
    all_goals cases h
    all_goals simp
  · intro _ _ _ _ _ ih; exact ih

/-- `Parse` returned false: the reader waits. -/
theorem drain_of_false {req req' : HttpRequest} {b b' : Buffer} (h : parse req b = (.returned false, req', b')) :
    Reader.drain parseRound req b = (none, req', b') := by
  cases hd : Reader.drain parseRound req b with
  | mk o q =>
    cases o with
    | none => rw [parse_of_wait hd] at h; simp_all
    | some r =>
      have := halt_ne_false req b
      rw [parse_of_halt hd] at h
      simp_all

theorem drain_of_ne_false {req req' : HttpRequest} {b b' : Buffer} {o : Outcome} (ho : o ≠ .returned false)
    (h : parse req b = (o, req', b')) : Reader.drain parseRound req b = (some o, req', b') := by
  cases hd : Reader.drain parseRound req b with
  | mk r q =>
    cases r with
    | none => rw [parse_of_wait hd] at h; simp_all
    | some r => rw [parse_of_halt hd] at h; simp_all

/-- A parse that has ended stays as it is when more bytes stand behind it. -/
theorem parse_append {req req' : HttpRequest} {b b' : Buffer} {o : Outcome} (ho : o ≠ .returned false)
    (h : parse req b = (o, req', b')) (c : Bytes) : parse req (b ++ c) = (o, req', b' ++ c) :=
  parse_of_halt (Reader.drain_append_halt resumable (drain_of_ne_false ho h) c)

/-- A parse that asked for more data goes on as if all of it had been there. -/
theorem parse_resume {req req' : HttpRequest} {b b' : Buffer} (h : parse req b = (.returned false, req', b'))
    (c : Bytes) : parse req (b ++ c) = parse req' (b' ++ c) := by
  unfold parse
  rw [Reader.drain_append_wait resumable (drain_of_false h) c]

/-- Append the pieces one at a time, calling `Parse` after each, until it returns true or
    throws; the pieces not fed yet stay behind what is unread. -/
def feed : HttpRequest → Buffer → List Bytes → Outcome × HttpRequest × Buffer
  | req, buffer, [] => (.returned false, req, buffer)
  | req, buffer, c :: cs =>
    match parse req (buffer ++ c) with
    | (.returned false, req', buffer') => feed req' buffer' cs
    | (o, req', buffer') => (o, req', buffer' ++ cs.flatten)

/-- `feed` is the reader fed piece by piece. -/
theorem feed_eq_reader (cs : List Bytes) : ∀ (req : HttpRequest) (b : Buffer),
    feed req b cs = (toOutcome (Reader.feed parseRound req b cs).1, (Reader.feed parseRound req b cs).2) := by
  induction cs with
  | nil => intro req b; rfl
  | cons c cs ih =>
    intro req b
    simp only [feed, Reader.feed]
    cases hd : Reader.drain parseRound req (b ++ c) with
    | mk o q =>
      cases o with
      | none => simp only [parse_of_wait hd]; exact ih _ _
      | some o =>
        simp only [parse_of_halt hd, toOutcome]
        have hne := halt_ne_false req (b ++ c)
        rw [hd] at hne
        cases o with
        | returned v => cases v <;> simp_all
        | threw e => rfl

theorem drain_fresh_nil : Reader.drain parseRound .fresh [] = (none, .fresh, []) := rfl

/-- From a request that waits for more data, feeding in pieces is parsing at once. -/
theorem feed_of_waiting {req : HttpRequest} {b : Buffer} (h : Reader.drain parseRound req b = (none, req, b))
    (cs : List Bytes) : feed req b cs = parse req (b ++ cs.flatten) := by
  rw [feed_eq_reader, Reader.feed_drain resumable cs h]
  rfl

theorem incremental_parse_eq_whole (cs : List Bytes) : feed .fresh [] cs = parse .fresh cs.flatten :=
  feed_of_waiting drain_fresh_nil cs

/-! ## (2) The grammar -/

def methodTable : List (Bytes × HttpMethod) :=
  [(ascii "GET", .get), (ascii "POST", .post), (ascii "HEAD", .head), (ascii "PUT", .put),
    (ascii "DELETE", .del), (ascii "OPTIONS", .options), (ascii "PATCH", .patch)]

/-- A header line's bytes before its first colon. -/
def headerName (line : Bytes) : Bytes := line.takeWhile (· != colon)

/-- Its bytes after that colon, without leading spaces. -/
def headerValue (line : Bytes) : Bytes := (line.dropWhile (· != colon)).tail.dropWhile (· == sp)

/-- The value of the last line with the given name. -/
def lastValue (name : Bytes) (lines : List Bytes) : Option Bytes :=
  (lines.reverse.find? (headerName · == name)).map headerValue

def requestLine (token path version : Bytes) : Bytes := token ++ sp :: (path ++ sp :: version)

/-- The body a `Content-Length` announces: none without one, else as many bytes as
    `std::stoull` reads from its value. -/
def Announced (contentLength : Option Bytes) (body : Bytes) : Prop :=
  match contentLength with
  | none => body = []
  | some value => stoull value = .ok body.length

/-- `b` is a request followed by `rest`. -/
structure IsRequest (b token : Bytes) (method : HttpMethod) (path version : Bytes) (lines : List Bytes)
    (body rest : Bytes) : Prop where
  shape : b = requestLine token path version ++ crlf ++ (glue lines ++ crlf ++ (body ++ rest))
  token_mem : (token, method) ∈ methodTable
  path_clear : sp ∉ path
  first_clear : ¬ crlf <:+: requestLine token path version
  line_ok : ∀ l ∈ lines, l ≠ [] ∧ colon ∈ l ∧ ¬ crlf <:+: l
  body_length : Announced (lastValue contentLengthKey lines) body

theorem mem_methodTable {token : Bytes} {method : HttpMethod} :
    (token, method) ∈ methodTable ↔ stringToMethod token = method ∧ method ≠ .invalid := by
  constructor
  · intro h
    simp only [methodTable, List.mem_cons, Prod.mk.injEq, List.not_mem_nil, or_false] at h
    rcases h with ⟨rfl, rfl⟩ | ⟨rfl, rfl⟩ | ⟨rfl, rfl⟩ | ⟨rfl, rfl⟩ | ⟨rfl, rfl⟩ | ⟨rfl, rfl⟩ | ⟨rfl, rfl⟩ <;> decide
  · intro hparts
    obtain ⟨rfl, h⟩ := hparts
    unfold stringToMethod at h ⊢
    repeat' split at h
    all_goals first
      | exact absurd rfl h
      | subst token; decide

theorem token_clear {token : Bytes} {method : HttpMethod} (h : (token, method) ∈ methodTable) : sp ∉ token := by
  have : ∀ p ∈ methodTable, sp ∉ p.1 := by decide
  exact this _ h

theorem cut_crlf {line : Bytes} (h : ¬ crlf <:+: line) (rest : Bytes) : cut crlf (line ++ crlf ++ rest) = some (line, rest) :=
  (cut_two_iff (by decide)).mpr ⟨by simp [crlf], h⟩

theorem cut_crlf_blank (rest : Bytes) : cut crlf (crlf ++ rest) = some ([], rest) :=
  cut_crlf (by decide : ¬ crlf <:+: []) rest

theorem cut_crlf_eq {b line rest : Bytes} (h : cut crlf b = some (line, rest)) :
    b = line ++ crlf ++ rest ∧ ¬ crlf <:+: line := by
  obtain ⟨he, hc⟩ := (cut_two_iff (by decide)).mp h
  exact ⟨by simpa [crlf] using he, hc⟩

theorem parseRequestLine_accepts {token path version : Bytes} {method : HttpMethod}
    (ht : (token, method) ∈ methodTable) (hp : sp ∉ path) (req : HttpRequest) :
    parseRequestLine req (requestLine token path version) = (true, { req with method, path, version }) := by
  obtain ⟨rfl, hm⟩ := mem_methodTable.mp ht
  have h1 : cut [sp] (requestLine token path version) = some (token, path ++ sp :: version) :=
    cut_one_iff.mpr ⟨rfl, token_clear ht⟩
  have h2 : cut [sp] (path ++ sp :: version) = some (path, version) := cut_one_iff.mpr ⟨rfl, hp⟩
  simp [parseRequestLine, h1, h2, hm]

theorem headerName_eq {key value : Bytes} (h : colon ∉ key) : headerName (key ++ colon :: value) = key := by
  unfold headerName
  rw [List.takeWhile_append_of_pos (by intro a ha; simpa using fun e : a = colon => h (e ▸ ha))]
  simp

theorem headerValue_eq {key value : Bytes} (h : colon ∉ key) :
    headerValue (key ++ colon :: value) = value.dropWhile (· == sp) := by
  unfold headerValue
  rw [List.dropWhile_append_of_pos (by intro a ha; simpa using fun e : a = colon => h (e ▸ ha))]
  simp

theorem parseHeader_accepts {line : Bytes} (h : colon ∈ line) (req : HttpRequest) :
    parseHeader req line = (true, { req with headers := req.headers.insert (headerName line) (headerValue line) }) := by
  rcases parseHeader_cases line with ⟨key, value, rfl, hk, ha⟩ | ⟨hn, _⟩
  · rw [ha, headerName_eq hk, headerValue_eq hk]
  · exact absurd h hn

/-- The header map after some more lines. -/
def withLines (hs : Headers) (lines : List Bytes) : Headers :=
  lines.foldl (fun hs line => hs.insert (headerName line) (headerValue line)) hs

theorem lastValue_cons (name line : Bytes) (lines : List Bytes) :
    lastValue name (line :: lines) =
      (lastValue name lines).or (if headerName line = name then some (headerValue line) else none) := by
  unfold lastValue
  rw [List.reverse_cons, List.find?_append]
  by_cases h : headerName line = name
  · cases hf : lines.reverse.find? (headerName · == name) <;> simp [h]
  · cases hf : lines.reverse.find? (headerName · == name) <;> simp [h]

theorem lookup_withLines (name : Bytes) (lines : List Bytes) : ∀ (hs : Headers),
    (withLines hs lines).lookup name = (lastValue name lines).or (hs.lookup name) := by
  induction lines with
  | nil => intro hs; rfl
  | cons line lines ih =>
    intro hs
    show (withLines (hs.insert _ _) lines).lookup name = _
    rw [ih, lastValue_cons, Option.or_assoc]
    congr 1
    by_cases h : headerName line = name
    · subst h; simp
    · simp [h, AList.lookup_insert_ne (Ne.symm h)]

/-- The header map after some lines answers for each name with its last line. -/
theorem lookup_lines (name : Bytes) (lines : List Bytes) : (withLines ∅ lines).lookup name = lastValue name lines := by
  rw [lookup_withLines]
  simp

/-- The request after its request line and header lines. -/
def afterHead (method : HttpMethod) (path version : Bytes) (hs : Headers) : HttpRequest :=
  ⟨method, path, version, hs, [], .headers, 0⟩

theorem drain_requestLine {token path version : Bytes} {method : HttpMethod} (ht : (token, method) ∈ methodTable)
    (hp : sp ∉ path) (hc : ¬ crlf <:+: requestLine token path version) (b : Bytes) :
    Reader.drain parseRound .fresh (requestLine token path version ++ crlf ++ b) =
      Reader.drain parseRound (afterHead method path version ∅) b := by
  apply Reader.drain_next resumable
  have : cut crlf (requestLine token path version ++ crlf ++ b) = _ := cut_crlf hc b
  simp only [parseRound, HttpRequest.fresh, this, requestLineRound, parseRequestLine_accepts ht hp, afterHead]

theorem drain_lines (lines : List Bytes) (hl : ∀ l ∈ lines, l ≠ [] ∧ colon ∈ l ∧ ¬ crlf <:+: l) (b : Bytes) :
    ∀ {req : HttpRequest}, req.parseState = .headers → Reader.drain parseRound req (glue lines ++ b) =
      Reader.drain parseRound { req with headers := withLines req.headers lines } b := by
  induction lines with
  | nil => intro req _; rfl
  | cons line lines ih =>
    intro req hs
    obtain ⟨hne, hc, hcl⟩ := hl line (by simp)
    have hcut : cut crlf (glue (line :: lines) ++ b) = some (line, glue lines ++ b) := by
      have := cut_crlf hcl (glue lines ++ b)
      simpa [glue] using this
    have hr : parseRound req (glue (line :: lines) ++ b) =
        .next { req with headers := req.headers.insert (headerName line) (headerValue line) } (glue lines ++ b) := by
      simp only [parseRound, hs, hcut, headerRound, hne, if_false, parseHeader_accepts hc]
    rw [Reader.drain_next resumable hr]
    exact ih (fun l h => hl l (by simp [h])) hs

/-- The request whose header section has just ended, and the bytes behind it: what `Parse`
    makes of them. -/
def bodyStep (req : HttpRequest) (rest : Bytes) : Option Outcome × HttpRequest × Buffer :=
  match req.headers.lookup contentLengthKey with
  | none => (some (.returned true), { req with parseState := .finish }, rest)
  | some value =>
    match stoull value with
    | .error e => (some (.threw e), req, rest)
    | .ok n =>
      if n ≤ rest.length then
        (some (.returned true), { req with contentLength := n, body := rest.take n, parseState := .finish }, rest.drop n)
      else (none, { req with contentLength := n, parseState := .body }, rest)

theorem drain_blankLine {req : HttpRequest} (hs : req.parseState = .headers) (rest : Bytes) :
    Reader.drain parseRound req (crlf ++ rest) = bodyStep req rest := by
  cases hv : req.headers.lookup contentLengthKey with
  | none =>
    simp only [bodyStep, hv]
    apply Reader.drain_halt
    simp only [parseRound, hs, cut_crlf_blank, headerRound, if_true, hv]
  | some value =>
    cases hn : stoull value with
    | error e =>
      simp only [bodyStep, hv, hn]
      apply Reader.drain_halt
      simp only [parseRound, hs, cut_crlf_blank, headerRound, if_true, hv, hn]
    | ok n =>
      simp only [bodyStep, hv, hn]
      have hr : parseRound req (crlf ++ rest) = .next { req with contentLength := n, parseState := .body } rest := by
        simp only [parseRound, hs, cut_crlf_blank, headerRound, if_true, hv, hn]
      rw [Reader.drain_next resumable hr]
      by_cases hle : n ≤ rest.length
      · simp only [hle, if_true]
        apply Reader.drain_halt
        simp only [parseRound, hle, if_true]
      · simp only [hle, if_false]
        apply Reader.drain_wait
        simp only [parseRound, hle, if_false]

/-- A body that was announced is taken. -/
theorem drain_blank (req : HttpRequest) (hs : req.parseState = .headers) {lines : List Bytes}
    (hh : ∀ name, req.headers.lookup name = lastValue name lines) {body : Bytes}
    (hb : Announced (lastValue contentLengthKey lines) body) (rest : Bytes) (h0 : req.body = []) :
    ∃ n, Reader.drain parseRound req (crlf ++ (body ++ rest)) =
      (some (.returned true), { req with body := body, contentLength := n, parseState := .finish }, rest) := by
  rw [← hh] at hb
  rw [drain_blankLine hs]
  cases hv : req.headers.lookup contentLengthKey with
  | none =>
    simp only [hv, Announced] at hb
    subst hb
    refine ⟨req.contentLength, ?_⟩
    simp only [bodyStep, hv, List.nil_append]
    rw [← h0]
  | some value =>
    simp only [hv, Announced] at hb
    refine ⟨body.length, ?_⟩
    simp [bodyStep, hv, hb]

/-- `Parse` on a string of the grammar. -/
theorem parse_of_isRequest {b token path version body rest : Bytes} {method : HttpMethod} {lines : List Bytes}
    (h : IsRequest b token method path version lines body rest) :
    ∃ n, parse .fresh b = (.returned true,
      ⟨method, path, version, withLines ∅ lines, body, .finish, n⟩, rest) := by
  have hh : ∀ name, (withLines ∅ lines).lookup name = lastValue name lines := fun name => lookup_lines name lines
  obtain ⟨n, hn⟩ := drain_blank (afterHead method path version (withLines ∅ lines)) rfl hh h.body_length rest rfl
  refine ⟨n, parse_of_halt ?_⟩
  rw [h.shape, drain_requestLine h.token_mem h.path_clear h.first_clear, List.append_assoc,
    drain_lines lines h.line_ok _ rfl]
  exact hn

/-- What a request whose first `parseState` stages are done still accepts. -/
def Accepts (req : HttpRequest) (b rest : Bytes) : Prop :=
  match req.parseState with
  | .requestLine => ∃ token method path version lines body, (token, method) ∈ methodTable ∧ sp ∉ path ∧
      ¬ crlf <:+: requestLine token path version ∧ (∀ l ∈ lines, l ≠ [] ∧ colon ∈ l ∧ ¬ crlf <:+: l) ∧
      Announced ((lastValue contentLengthKey lines).or (req.headers.lookup contentLengthKey)) body ∧
      b = requestLine token path version ++ crlf ++ (glue lines ++ crlf ++ (body ++ rest))
  | .headers => ∃ lines body, (∀ l ∈ lines, l ≠ [] ∧ colon ∈ l ∧ ¬ crlf <:+: l) ∧
      Announced ((lastValue contentLengthKey lines).or (req.headers.lookup contentLengthKey)) body ∧
      b = glue lines ++ crlf ++ (body ++ rest)
  | .body => ∃ body, body.length = req.contentLength ∧ b = body ++ rest
  | .finish => b = rest

theorem accepts_headerRound {req req' : HttpRequest} {line rest out : Bytes} (hs : req.parseState = .headers)
    (hc : ¬ crlf <:+: line) (h : headerRound req line rest = .next req' rest) (ha : Accepts req' rest out) :
    Accepts req (line ++ crlf ++ rest) out := by
  unfold headerRound at h
  by_cases hl : line = []
  · subst hl
    simp only [if_true] at h
    cases hv : req.headers.lookup contentLengthKey with
    | none => simp [hv] at h
    | some value =>
      cases hn : stoull value with
      | error e => simp [hv, hn] at h
      | ok n =>
        simp only [hv, hn, Round.next.injEq, and_true] at h
        subst h
        obtain ⟨body, hb, rfl⟩ := ha
        simp only [Accepts, hs]
        exact ⟨[], body, by simp, by simpa [lastValue, hv, Announced, hn] using hb.symm, by simp [glue]⟩
  · simp only [hl, if_false] at h
    rcases parseHeader_cases line with ⟨key, value, he, hk, hr⟩ | ⟨hn, hr⟩
    · simp only [hr, Round.next.injEq, and_true] at h
      subst h
      simp only [Accepts, hs] at ha ⊢
      obtain ⟨lines, body, hok, hb, rfl⟩ := ha
      refine ⟨line :: lines, body, ?_, ?_, by simp [glue]⟩
      · intro l hm
        rcases List.mem_cons.mp hm with rfl | hm
        · exact ⟨hl, by simp [he], hc⟩
        · exact hok l hm
      · rw [lastValue_cons, Option.or_assoc]
        convert hb using 3
        rw [he, headerName_eq hk, headerValue_eq hk]
        by_cases hkk : key = contentLengthKey
        · subst hkk; simp
        · simp [hkk, AList.lookup_insert_ne (Ne.symm hkk)]
    · simp [hr] at h

/-- A round that goes on has read the request line or a header line. -/
theorem parseRound_next {req req' : HttpRequest} {b rest : Buffer} (h : parseRound req b = .next req' rest) :
    (req.parseState = .requestLine ∧ ∃ token path version, b = token ++ sp :: (path ++ sp :: version) ++ crlf ++ rest ∧
      ¬ crlf <:+: token ++ sp :: (path ++ sp :: version) ∧ sp ∉ token ∧ sp ∉ path ∧ stringToMethod token ≠ .invalid ∧
      req' = { req with method := stringToMethod token, path, version, parseState := .headers }) ∨
    (req.parseState = .headers ∧ ∃ line, b = line ++ crlf ++ rest ∧ ¬ crlf <:+: line ∧
      headerRound req line rest = .next req' rest) := by
  unfold parseRound at h
  split at h
  · rename_i hs
    split at h
    · cases h
    · rename_i line rest' hc
      obtain ⟨rfl, hcl⟩ := cut_crlf_eq hc
      obtain rfl := requestLineRound_next h
      unfold requestLineRound at h
      rcases parseRequestLine_cases line with ⟨token, path, version, rfl, ht, hp, hm, hr⟩ | ⟨_, _, hr⟩
      · simp only [hr, Round.next.injEq, and_true] at h
        exact .inl ⟨hs, token, path, version, rfl, hcl, ht, hp, hm, h.symm⟩
      · simp [hr] at h
  · rename_i hs
    split at h
    · cases h
    · rename_i line rest' hc
      obtain ⟨rfl, hcl⟩ := cut_crlf_eq hc
      obtain rfl := headerRound_next h
      exact .inr ⟨hs, line, rfl, hcl, h⟩
  · split at h <;> cases h
  · cases h

/-- A round that ends the parse has read the empty line, or has the body. -/
theorem parseRound_halt {req req' : HttpRequest} {b rest : Buffer} {o : Outcome} (h : parseRound req b = .halt o req' rest) :
    (req.parseState = .headers ∧ b = crlf ++ rest ∧ (o = .returned true → req.headers.lookup contentLengthKey = none)) ∨
    (req.parseState = .body ∧ req.contentLength ≤ b.length ∧ rest = b.drop req.contentLength) ∨
    (req.parseState = .finish ∧ rest = b) := by
  unfold parseRound at h
  split at h
  · split at h
    · cases h
    · unfold requestLineRound at h
      split at h <;> cases h
  · rename_i hs
    split at h
    · cases h
    · rename_i line rest' hc
      obtain ⟨rfl, -⟩ := cut_crlf_eq hc
      unfold headerRound at h
      split at h
      · rename_i hl
        subst hl
        cases hv : req.headers.lookup contentLengthKey with
        | none =>
          simp only [hv, Round.halt.injEq] at h
          obtain ⟨-, -, rfl⟩ := h
          exact .inl ⟨hs, rfl, fun _ => rfl⟩
        | some value =>
          cases hn : stoull value with
          | ok n => simp [hv, hn] at h
          | error e =>
            simp only [hv, hn, Round.halt.injEq] at h
            obtain ⟨rfl, -, rfl⟩ := h
            exact .inl ⟨hs, rfl, fun ho => by cases ho⟩
      · split at h <;> cases h
  · rename_i hs
    split at h
    · rename_i hl
      cases h
      exact .inr (.inl ⟨hs, hl, rfl⟩)
    · cases h
  · rename_i hs
    cases h
    exact .inr (.inr ⟨hs, rfl⟩)

theorem accepts_of_drain (req : HttpRequest) (b : Bytes) :
    (Reader.drain parseRound req b).1 = some (.returned true) →
      Accepts req b (Reader.drain parseRound req b).2.2 := by
  refine Reader.drain_induction resumable
    (P := fun req b out => out.1 = some (.returned true) → Accepts req b out.2.2) ?_ ?_ ?_ req b
  · intro req b req' _ h; cases h
  · intro req b o req' rest h ho
    simp only [Option.some.injEq] at ho
    rcases parseRound_halt h with ⟨hs, rfl, hnone⟩ | ⟨hs, hl, rfl⟩ | ⟨hs, rfl⟩
    · simp only [Accepts, hs]
      exact ⟨[], [], by simp, by simp [lastValue, hnone ho, Announced], by simp [glue]⟩
    · simp only [Accepts, hs]
      exact ⟨b.take req.contentLength, by simpa using hl, by simp⟩
    · simp only [Accepts, hs]
  · intro req b req' rest h ih ho
    have ha := ih ho
    revert ha
    generalize (Reader.drain parseRound req' rest).2.2 = out
    intro ha
    rcases parseRound_next h with ⟨hs, token, path, version, rfl, hcl, ht, hp, hm, rfl⟩ | ⟨hs, line, rfl, hcl, hr⟩
    · obtain ⟨lines, body, hok, hb, rfl⟩ := ha
      simp only [Accepts, hs]
      exact ⟨token, stringToMethod token, path, version, lines, body, mem_methodTable.mpr ⟨rfl, hm⟩, hp, hcl, hok, hb, rfl⟩
    · exact accepts_headerRound hs hcl hr ha

theorem isRequest_of_parse {b : Bytes} (h : (parse .fresh b).1 = .returned true) :
    ∃ token method path version lines body, IsRequest b token method path version lines body (parse .fresh b).2.2 := by
  have hd : (Reader.drain parseRound .fresh b).1 = some (.returned true) := by
    have := drain_of_ne_false (o := .returned true) (by simp) (Prod.ext h rfl : parse .fresh b = (_, _, _))
    rw [this]
  obtain ⟨token, method, path, version, lines, body, ht, hp, hc, hok, hb, he⟩ := accepts_of_drain .fresh b hd
  have hn : HttpRequest.fresh.headers.lookup contentLengthKey = none := rfl
  rw [hn, Option.or_none] at hb
  exact ⟨token, method, path, version, lines, body, he, ht, hp, hc, hok, hb⟩

/-- Lines glued together come apart in one way only. -/
theorem glue_inj (lines : List Bytes) : ∀ {lines' : List Bytes} {x x' : Bytes},
    (∀ l ∈ lines, l ≠ [] ∧ ¬ crlf <:+: l) → (∀ l ∈ lines', l ≠ [] ∧ ¬ crlf <:+: l) →
    glue lines ++ crlf ++ x = glue lines' ++ crlf ++ x' → lines = lines' ∧ x = x' := by
  have hcut : ∀ (l : Bytes) (ls : List Bytes) (x : Bytes), ¬ crlf <:+: l →
      cut crlf (glue (l :: ls) ++ crlf ++ x) = some (l, glue ls ++ crlf ++ x) := by
    intro l ls x h
    have := cut_crlf h (glue ls ++ crlf ++ x)
    simpa [glue] using this
  have hblank : ∀ x : Bytes, cut crlf (glue [] ++ crlf ++ x) = some ([], x) := cut_crlf_blank
  induction lines with
  | nil =>
    intro lines' x x' _ h' he
    cases lines' with
    | nil => simpa [glue] using he
    | cons l ls =>
      have h2 := hcut l ls x' (h' l (by simp)).2
      rw [← he, hblank] at h2
      simp only [Option.some.injEq, Prod.mk.injEq] at h2
      exact absurd h2.1.symm (h' l (by simp)).1
  | cons l ls ih =>
    intro lines' x x' h h' he
    have h1 := hcut l ls x (h l (by simp)).2
    cases lines' with
    | nil =>
      rw [he, hblank] at h1
      simp only [Option.some.injEq, Prod.mk.injEq] at h1
      exact absurd h1.1.symm (h l (by simp)).1
    | cons l' ls' =>
      rw [he, hcut l' ls' x' (h' l' (by simp)).2] at h1
      simp only [Option.some.injEq, Prod.mk.injEq] at h1
      obtain ⟨rfl, hr⟩ := h1
      obtain ⟨rfl, rfl⟩ := ih (fun m hm => h m (by simp [hm])) (fun m hm => h' m (by simp [hm])) hr.symm
      exact ⟨rfl, rfl⟩

theorem requestLine_inj {token token' path path' version version' : Bytes} (ht : sp ∉ token) (ht' : sp ∉ token')
    (hp : sp ∉ path) (hp' : sp ∉ path') (h : requestLine token path version = requestLine token' path' version') :
    token = token' ∧ path = path' ∧ version = version' := by
  have h1 : cut [sp] (requestLine token path version) = some (token, path ++ sp :: version) := cut_one_iff.mpr ⟨rfl, ht⟩
  rw [h, (cut_one_iff.mpr ⟨rfl, ht'⟩ : cut [sp] (requestLine token' path' version') = some (token', path' ++ sp :: version'))] at h1
  simp only [Option.some.injEq, Prod.mk.injEq] at h1
  obtain ⟨rfl, hr⟩ := h1
  have h2 : cut [sp] (path ++ sp :: version) = some (path, version) := cut_one_iff.mpr ⟨rfl, hp⟩
  rw [← hr, (cut_one_iff.mpr ⟨rfl, hp'⟩ : cut [sp] (path' ++ sp :: version') = some (path', version'))] at h2
  simp only [Option.some.injEq, Prod.mk.injEq] at h2
  exact ⟨rfl, h2.1.symm, h2.2.symm⟩

/-- The parts of a request are unique. -/
theorem isRequest_unique {b token token' path path' version version' body body' rest rest' : Bytes}
    {method method' : HttpMethod} {lines lines' : List Bytes}
    (h : IsRequest b token method path version lines body rest)
    (h' : IsRequest b token' method' path' version' lines' body' rest') :
    token = token' ∧ path = path' ∧ version = version' ∧ lines = lines' ∧ body = body' ∧ rest = rest' := by
  have h1 := cut_crlf h.first_clear (glue lines ++ crlf ++ (body ++ rest))
  rw [← h.shape, h'.shape, cut_crlf h'.first_clear] at h1
  simp only [Option.some.injEq, Prod.mk.injEq] at h1
  obtain ⟨he, hg⟩ := h1
  obtain ⟨rfl, rfl, rfl⟩ := requestLine_inj (token_clear h'.token_mem) (token_clear h.token_mem) h'.path_clear h.path_clear he
  obtain ⟨rfl, hx⟩ := glue_inj _ (fun l hl => ⟨(h'.line_ok l hl).1, (h'.line_ok l hl).2.2⟩)
    (fun l hl => ⟨(h.line_ok l hl).1, (h.line_ok l hl).2.2⟩) hg
  have hlen : body'.length = body.length := by
    have hb := h.body_length
    have hb' := h'.body_length
    unfold Announced at hb hb'
    cases hv : lastValue contentLengthKey lines' with
    | none => simp_all
    | some v =>
      simp only [hv] at hb hb'
      rw [hb] at hb'
      simpa using hb'.symm
  obtain ⟨rfl, rfl⟩ := List.append_inj hx hlen
  exact ⟨rfl, rfl, rfl, rfl, rfl, rfl⟩

/-- `Parse` accepts exactly the grammar, whose parts are unique, and returns exactly the
    parts. -/
theorem parse_accepts_grammar (b : Bytes) :
    ((parse .fresh b).1 = .returned true ↔
      ∃ token method path version lines body rest, IsRequest b token method path version lines body rest) ∧
    (∀ {token token' path path' version version' body body' rest rest' : Bytes} {method method' : HttpMethod}
      {lines lines' : List Bytes}, IsRequest b token method path version lines body rest →
      IsRequest b token' method' path' version' lines' body' rest' →
      token = token' ∧ path = path' ∧ version = version' ∧ lines = lines' ∧ body = body' ∧ rest = rest') ∧
    ∀ {token path version body rest : Bytes} {method : HttpMethod} {lines : List Bytes},
      IsRequest b token method path version lines body rest →
      ∃ req, parse .fresh b = (.returned true, req, rest) ∧ req.method = method ∧ req.path = path ∧
        req.version = version ∧ req.body = body ∧ ∀ name, req.getHeader name = (lastValue name lines).getD [] := by
  refine ⟨⟨fun h => ?_, ?_⟩, isRequest_unique, ?_⟩
  · obtain ⟨token, method, path, version, lines, body, hi⟩ := isRequest_of_parse h
    exact ⟨token, method, path, version, lines, body, _, hi⟩
  · intro ⟨token, method, path, version, lines, body, rest, hi⟩
    obtain ⟨n, hn⟩ := parse_of_isRequest hi
    rw [hn]
  · intro token path version body rest method lines hi
    obtain ⟨n, hn⟩ := parse_of_isRequest hi
    refine ⟨_, hn, rfl, rfl, rfl, rfl, fun name => ?_⟩
    simp [HttpRequest.getHeader, lookup_withLines]

end BreWebServer.Http
