/-
  BreWebServer.Http.Decoding — what `Build` appends, read back.

  A reader splits off a status line, the header lines up to the first empty one, and as
  many bytes of body as the `Content-Length` among them says. `Spelled m b` is the shape it
  expects of a message's text; texts one behind the other are read back as their messages
  (`decode_of_spelled`), so no two lists of messages share a text.

  `Build` spells the response's status, the caller's headers with its own, and the body, in
  whatever order the header map is iterated (`spelled_encode`). So a buffer on which
  responses were built is decoded into them, and into nothing else (`decode_builds`).
-/

import BreWebServer.Http.Client
import BreWebServer.Http.Response

namespace BreWebServer.Http

open BreWebServer.Lib BreWebServer.Cpp

structure Message where
  status : HttpStatus
  headers : List (Bytes × Bytes)
  body : Bytes
  deriving DecidableEq

namespace Message

/-! ## The reader -/

def statuses : List HttpStatus :=
  [.ok, .created, .noContent, .movedPermanently, .found, .notModified, .badRequest, .unauthorized, .forbidden,
    .notFound, .methodNotAllowed, .conflict, .internalServerError, .notImplemented, .serviceUnavailable]

/-- The reason behind the code is not looked at. -/
def readStatusLine (line : Bytes) : Option HttpStatus :=
  match cut [sp] line with
  | none => none
  | some (version, rest) =>
    if version = ascii "HTTP/1.1" then
      (Client.readNumber (rest.takeWhile (· != sp))).bind fun code => statuses.find? (·.code == code)
    else none

def readField (line : Bytes) : Option (Bytes × Bytes) :=
  if colon ∈ line then some (headerName line, headerValue line) else none

/-- The length announced among header fields. -/
def announced (headers : List (Bytes × Bytes)) : Option Nat :=
  (headers.findSome? fun kv =>
    if Client.lower kv.1 = Client.lower contentLengthKey then some kv.2 else none).bind Client.readNumber

def readMessage (s : Bytes) : Option (Message × Bytes) :=
  match Client.readHead s.length s with
  | some (first :: lines, rest) =>
    match readStatusLine first, lines.mapM readField with
    | some status, some headers =>
      match announced headers with
      | some n => if n ≤ rest.length then some (⟨status, headers, rest.take n⟩, rest.drop n) else none
      | none => none
    | _, _ => none
  | _ => none

def decodeN : Nat → Bytes → Option (List Message)
  | _, [] => some []
  | 0, _ :: _ => none
  | n + 1, s => (readMessage s).bind fun r => (decodeN n r.2).map (r.1 :: ·)

/-- The messages of a text, if all of it is messages. -/
def decode (s : Bytes) : Option (List Message) := decodeN s.length s

/-- `b` is a text of the message: a status line, header lines, an empty line, the body. -/
def Spelled (m : Message) (b : Bytes) : Prop :=
  ∃ first lines, b = glue (first :: lines) ++ crlf ++ m.body ∧ (∀ l ∈ first :: lines, l ≠ [] ∧ ¬ crlf <:+: l) ∧
    readStatusLine first = some m.status ∧ lines.mapM readField = some m.headers ∧ announced m.headers = some m.body.length

/-! ## Texts are read back -/

theorem readHead_lines {head : List Bytes} (hok : ∀ l ∈ head, l ≠ [] ∧ ¬ crlf <:+: l) (rest : Bytes) :
    Client.readHead (glue head ++ crlf ++ rest).length (glue head ++ crlf ++ rest) = some (head, rest) := by
  apply Client.readHead_glue head hok
  have := Client.length_glue head
  simp only [List.length_append, crlf, List.length_cons, List.length_nil]
  omega

theorem readMessage_of_spelled {m : Message} {b : Bytes} (h : Spelled m b) (rest : Bytes) :
    readMessage (b ++ rest) = some (m, rest) := by
  obtain ⟨first, lines, rfl, hok, hstatus, hfields, hlen⟩ := h
  have hb : glue (first :: lines) ++ crlf ++ m.body ++ rest = glue (first :: lines) ++ crlf ++ (m.body ++ rest) := by simp
  have hle : m.body.length ≤ (m.body ++ rest).length := by simp
  rw [hb]
  simp only [readMessage, readHead_lines hok, hstatus, hfields, hlen, hle, if_true, List.take_left', List.drop_left']

theorem length_spelled {m : Message} {b : Bytes} (h : Spelled m b) : 0 < b.length := by
  obtain ⟨first, lines, rfl, -⟩ := h
  simp only [List.length_append, crlf, List.length_cons, List.length_nil]
  omega

theorem decodeN_of_spelled {ms : List Message} {bs : List Bytes} (h : List.Forall₂ Spelled ms bs) :
    ∀ n, bs.flatten.length ≤ n → decodeN n bs.flatten = some ms := by
  induction h with
  | nil =>
    intro n _
    cases n <;> rfl
  | @cons m b ms bs hm _ ih =>
    intro n hn
    have hpos := length_spelled hm
    rw [List.flatten_cons, List.length_append] at hn
    cases n with
    | zero => omega
    | succ n =>
      obtain ⟨c, tail, he⟩ : ∃ c tail, b ++ bs.flatten = c :: tail :=
        List.exists_cons_of_length_pos (by rw [List.length_append]; omega)
      have hr := readMessage_of_spelled hm bs.flatten
      rw [he] at hr
      rw [List.flatten_cons, he, decodeN, hr, Option.bind_some, ih n (by omega)]
      · rfl
      · simp

theorem decode_of_spelled {ms : List Message} {bs : List Bytes} (h : List.Forall₂ Spelled ms bs) :
    decode bs.flatten = some ms :=
  decodeN_of_spelled h _ (le_refl _)

/-- No text is that of two lists of messages. -/
theorem spelled_unique {ms ms' : List Message} {bs bs' : List Bytes} (h : List.Forall₂ Spelled ms bs)
    (h' : List.Forall₂ Spelled ms' bs') (he : bs'.flatten = bs.flatten) : ms' = ms := by
  have hd := decode_of_spelled h'
  rw [he, decode_of_spelled h] at hd
  exact (Option.some.inj hd).symm

end Message

/-! ## What `Build` spells -/

namespace HttpResponse

open Message

/-- The header names `Build` sets itself. -/
def ownNames : List Bytes := [ascii "Connection", ascii "Keep-Alive", contentLengthKey]

/-- The headers set by a caller. -/
def given (r : HttpResponse) : List (Bytes × Bytes) := r.headers.entries.map fun e => (e.1, e.2)

/-- Headers as callers set them: a name is a word without a colon and none of `Build`'s own
    in any spelling, a value does not begin with a space, and neither breaks a line. -/
structure Sendable (r : HttpResponse) : Prop where
  name : ∀ kv ∈ r.given, kv.1 ≠ [] ∧ colon ∉ kv.1 ∧ 13 ∉ kv.1 ∧ 10 ∉ kv.1
  foreign : ∀ kv ∈ r.given, ∀ own ∈ ownNames, Client.lower kv.1 ≠ Client.lower own
  value : ∀ kv ∈ r.given, 13 ∉ kv.2 ∧ 10 ∉ kv.2 ∧ kv.2.head? ≠ some sp

instance (r : HttpResponse) : Decidable (Sendable r) :=
  decidable_of_iff ((∀ kv ∈ r.given, kv.1 ≠ [] ∧ colon ∉ kv.1 ∧ 13 ∉ kv.1 ∧ 10 ∉ kv.1) ∧
      (∀ kv ∈ r.given, ∀ own ∈ ownNames, Client.lower kv.1 ≠ Client.lower own) ∧
      ∀ kv ∈ r.given, 13 ∉ kv.2 ∧ 10 ∉ kv.2 ∧ kv.2.head? ≠ some sp)
    ⟨fun h => ⟨h.1, h.2.1, h.2.2⟩, fun h => ⟨h.name, h.foreign, h.value⟩⟩

def connectionFields (keepAlive : Bool) : List (Bytes × Bytes) :=
  if keepAlive then
    [(ascii "Connection", ascii "keep-alive"), (ascii "Keep-Alive", ascii "timeout=5, max=100")]
  else [(ascii "Connection", ascii "close")]

def lengthField (r : HttpResponse) : Bytes × Bytes := (contentLengthKey, decimalString r.body.length)

/-- The header set that is to be read: the caller's headers, the connection's, the length. -/
def fields (r : HttpResponse) : List (Bytes × Bytes) := r.given ++ connectionFields r.keepAlive ++ [r.lengthField]

theorem mem_given {r : HttpResponse} {k : Bytes} (h : k ∈ r.headers) : ∃ v, (k, v) ∈ r.given := by
  obtain ⟨e, he, rfl⟩ := List.mem_map.mp (AList.mem_keys.mp h)
  exact ⟨e.2, List.mem_map.mpr ⟨e, he, rfl⟩⟩

theorem Sendable.notMem {r : HttpResponse} (h : Sendable r) {own : Bytes} (hown : own ∈ ownNames) : own ∉ r.headers := by
  intro hm
  obtain ⟨v, hv⟩ := mem_given hm
  exact h.foreign _ hv own hown rfl

theorem given_addHeader {r : HttpResponse} {key : Bytes} (h : key ∉ r.headers) (value : Bytes) :
    (r.addHeader key value).given = (key, value) :: r.given := by
  simp only [given, addHeader, AList.entries_insert_of_notMem h, List.map_cons]

theorem notMem_addHeader {r : HttpResponse} {key own : Bytes} (hne : own ≠ key) (h : own ∉ r.headers) (value : Bytes) :
    own ∉ (r.addHeader key value).headers := by
  rw [addHeader, AList.mem_insert, not_or]
  exact ⟨hne, h⟩

/-- `Build` adds its own headers to the caller's and replaces none. -/
theorem finished_fields {r : HttpResponse} (h : Sendable r) : r.finished.given.Perm r.fields := by
  have hconn : ascii "Connection" ∉ r.headers := h.notMem (by decide)
  have hkeep : ascii "Keep-Alive" ∉ r.headers := h.notMem (by decide)
  have hlen : ascii "Content-Length" ∉ r.headers := h.notMem (by decide)
  have hkc : ascii "Keep-Alive" ≠ ascii "Connection" := by decide
  have hlc : ascii "Content-Length" ≠ ascii "Connection" := by decide
  have hlk : ascii "Content-Length" ≠ ascii "Keep-Alive" := by decide
  have hreverse : ∀ own : List (Bytes × Bytes), (r.lengthField :: own.reverse ++ r.given).Perm (r.given ++ own ++ [r.lengthField]) := by
    intro own
    calc (r.lengthField :: own.reverse ++ r.given).Perm (r.lengthField :: (r.given ++ own)) :=
          List.Perm.cons _ (List.perm_append_comm.trans ((List.reverse_perm own).append_left _))
      _ |>.Perm (r.given ++ own ++ [r.lengthField]) := (List.perm_append_singleton _ _).symm
  cases hk : r.keepAlive with
  | true =>
    have hl : r.finished.given = r.lengthField :: (connectionFields true).reverse ++ r.given := by
      simp only [finished, hk, if_true]
      rw [given_addHeader (notMem_addHeader hlk (notMem_addHeader hlc hlen _) _),
        given_addHeader (notMem_addHeader hkc hkeep _), given_addHeader hconn]
      rfl
    rw [hl, fields, hk]
    exact hreverse _
  | false =>
    have hl : r.finished.given = r.lengthField :: (connectionFields false).reverse ++ r.given := by
      simp only [finished, hk, Bool.false_eq_true, if_false]
      rw [given_addHeader (notMem_addHeader hlc hlen _), given_addHeader hconn]
      rfl
    rw [hl, fields, hk]
    exact hreverse _

theorem mem_order_fields {r : HttpResponse} (h : Sendable r) (it : MapOrder) {kv : Bytes × Bytes} :
    kv ∈ it.order r.finished.headers ↔ kv ∈ r.fields :=
  ((it.perm r.finished.headers).trans (finished_fields h)).mem_iff

/-- A field as it can be read back: the name ends at the first colon, the value begins
    behind one space, and both are on one line. -/
def Legible (kv : Bytes × Bytes) : Prop := colon ∉ kv.1 ∧ 13 ∉ headerLine kv ∧ kv.2.head? ≠ some sp

theorem readField_headerLine {kv : Bytes × Bytes} (h : Legible kv) : readField (headerLine kv) = some kv := by
  obtain ⟨hc, -, hs⟩ := h
  have he : headerLine kv = kv.1 ++ colon :: sp :: kv.2 := by simp [headerLine, ascii, colon, sp]
  have hv : (sp :: kv.2).dropWhile (· == sp) = kv.2 := by
    rw [List.dropWhile_cons_of_pos (by decide)]
    cases hk : kv.2 with
    | nil => rfl
    | cons c v =>
      rw [hk] at hs
      exact List.dropWhile_cons_of_neg (by simpa using hs)
  rw [readField, he, if_pos (by simp), headerName_eq hc, headerValue_eq hc, hv]

theorem mapM_readField {l : List (Bytes × Bytes)} (h : ∀ kv ∈ l, Legible kv) :
    (l.map headerLine).mapM readField = some l := by
  induction l with
  | nil => rfl
  | cons kv l ih =>
    rw [List.map_cons, List.mapM_cons, readField_headerLine (h kv (by simp)), ih fun x hx => h x (by simp [hx])]
    rfl

theorem decimalString_plain (n : Nat) : 13 ∉ decimalString n ∧ (decimalString n).head? ≠ some sp := by
  have hd : ∀ c ∈ decimalString n, isDigit c = true := fun c => Client.isDigit_of_mem_decimalString
  refine ⟨fun h => absurd (hd _ h) (by decide), ?_⟩
  intro h
  exact absurd (hd _ (List.mem_of_mem_head? h)) (by decide)

theorem legible_fields {r : HttpResponse} (h : Sendable r) {kv : Bytes × Bytes} (hkv : kv ∈ r.fields) : Legible kv := by
  have hline : ∀ {kv : Bytes × Bytes}, 13 ∉ kv.1 → 13 ∉ kv.2 → 13 ∉ headerLine kv := by
    intro kv h1 h2
    simp only [headerLine, List.mem_append, not_or]
    exact ⟨⟨h1, by decide⟩, h2⟩
  rw [fields, List.mem_append, List.mem_append, List.mem_singleton] at hkv
  rcases hkv with (hkv | hkv) | rfl
  · obtain ⟨-, hc, h1, -⟩ := h.name kv hkv
    obtain ⟨h2, -, hs⟩ := h.value kv hkv
    exact ⟨hc, hline h1 h2, hs⟩
  · have hown : ∀ b, ∀ kv ∈ connectionFields b, colon ∉ kv.1 ∧ 13 ∉ headerLine kv ∧ kv.2.head? ≠ some sp := by decide
    exact hown _ kv hkv
  · obtain ⟨h2, hs⟩ := decimalString_plain r.body.length
    have h1 : colon ∉ contentLengthKey ∧ 13 ∉ contentLengthKey := by decide
    exact ⟨h1.1, hline h1.2 h2, hs⟩

theorem announced_fields {r : HttpResponse} (h : Sendable r) {l : List (Bytes × Bytes)} (hl : ∀ kv, kv ∈ l ↔ kv ∈ r.fields) :
    announced l = some r.body.length := by
  have hfind : (l.findSome? fun kv => if Client.lower kv.1 = Client.lower contentLengthKey then some kv.2 else none) =
      some (decimalString r.body.length) := by
    apply Client.findSome?_of_mem ((hl r.lengthField).mpr (by simp [fields])) (if_pos rfl)
    intro kv hkv
    rw [hl, fields, List.mem_append, List.mem_append, List.mem_singleton] at hkv
    rcases hkv with (hkv | hkv) | rfl
    · exact .inl (if_neg (h.foreign kv hkv _ (by decide)))
    · have hown : ∀ b, ∀ kv ∈ connectionFields b, Client.lower kv.1 ≠ Client.lower contentLengthKey := by decide
      exact .inl (if_neg (hown _ kv hkv))
    · exact .inr (if_pos rfl)
  rw [announced, hfind, Option.bind_some, Client.readNumber_decimalString]

theorem readStatusLine_statusLine (status : HttpStatus) : readStatusLine (statusLine status) = some status := by
  cases status <;> decide

/-- The response as a reader gets it. -/
def message (it : MapOrder) (r : HttpResponse) : Message := ⟨r.status, it.order r.finished.headers, r.body⟩

theorem spelled_encode {r : HttpResponse} (h : Sendable r) (it : MapOrder) : Spelled (message it r) (encode it r) :=
  ⟨statusLine r.status, (it.order r.finished.headers).map headerLine, encode_eq it r,
    headLines_clear fun _ hkv => (legible_fields h ((mem_order_fields h it).mp hkv)).2.1, readStatusLine_statusLine r.status, mapM_readField fun _ hkv => legible_fields h ((mem_order_fields h it).mp hkv),
    announced_fields h fun _ => mem_order_fields h it⟩

/-- Responses built one after the other on one buffer, each with its map's order. -/
def buildAll (rs : List (MapOrder × HttpResponse)) (buffer : Buffer) : Buffer :=
  rs.foldl (fun buffer p => (build p.1 p.2 buffer).2) buffer

theorem buildAll_eq (rs : List (MapOrder × HttpResponse)) : ∀ buffer : Buffer,
    buildAll rs buffer = buffer ++ (rs.map fun p => encode p.1 p.2).flatten := by
  induction rs with
  | nil => intro buffer; simp [buildAll]
  | cons p rs ih =>
    intro buffer
    have hb : buildAll (p :: rs) buffer = buildAll rs (build p.1 p.2 buffer).2 := rfl
    rw [hb, ih, build_eq_encode]
    simp

/-- What a reader is to get of a response: its status, its header set and its body. -/
structure Shows (m : Message) (r : HttpResponse) : Prop where
  status : m.status = r.status
  headers : m.headers.Perm r.fields
  body : m.body = r.body

theorem decode_builds (rs : List (MapOrder × HttpResponse)) (h : ∀ p ∈ rs, Sendable p.2) :
    ∃ ms, decode (buildAll rs []) = some ms ∧ List.Forall₂ (fun m p => Shows m p.2) ms rs ∧
      ∀ ms' bs, List.Forall₂ Spelled ms' bs → bs.flatten = buildAll rs [] → ms' = ms := by
  have hspelled : List.Forall₂ Spelled (rs.map fun p => message p.1 p.2) (rs.map fun p => encode p.1 p.2) := by
    rw [List.forall₂_map_left_iff, List.forall₂_map_right_iff, List.forall₂_same]
    intro p hp
    exact spelled_encode (h p hp) p.1
  have hb : buildAll rs [] = (rs.map fun p => encode p.1 p.2).flatten := by simpa using buildAll_eq rs []
  refine ⟨rs.map fun p => message p.1 p.2, ?_, ?_, ?_⟩
  · rw [hb]
    exact decode_of_spelled hspelled
  · rw [List.forall₂_map_left_iff, List.forall₂_same]
    intro p hp
    exact ⟨rfl, (p.1.perm _).trans (finished_fields (h p hp)), rfl⟩
  · intro ms' bs hbs he
    exact spelled_unique hspelled hbs (he.trans hb)

/-- A text whose bytes look like the end of one message and the beginning of another. -/
def nested : HttpResponse := makeTextResponse (ascii "a\r\n\r\nHTTP/1.1 200 OK\r\nContent-Length: 0\r\n\r\n\x00")

theorem nested_decoded : ∃ ms,
    decode (buildAll [(MapOrder.listed, nested), (MapOrder.listed, nested.setKeepAlive true)] []) = some ms ∧
    List.Forall₂ (fun m p => Shows m p.2) ms [(MapOrder.listed, nested), (MapOrder.listed, nested.setKeepAlive true)] ∧
    ∀ ms' bs, List.Forall₂ Spelled ms' bs →
      bs.flatten = buildAll [(MapOrder.listed, nested), (MapOrder.listed, nested.setKeepAlive true)] [] → ms' = ms :=
  decode_builds [(MapOrder.listed, nested), (MapOrder.listed, nested.setKeepAlive true)] (by
    simp only [List.forall_mem_cons]
    exact ⟨by decide, by decide, by simp⟩)

end HttpResponse

end BreWebServer.Http
