/-
  BreWebServer.Http.Viability — when "more data needed" is true.

  `HttpRequest::Parse` returns false, which its comment reads as "more data needed", both
  when a line is not complete and when a complete line is malformed. `Viable` says of the
  bytes alone that no line in them is malformed. Proved (`extendable_iff_viable`): a parse
  that returned false can be completed by further bytes exactly when the bytes so far are
  viable; on any others it goes on returning false whatever arrives.
-/

import BreWebServer.Http.HeaderSection

namespace BreWebServer.Http

open BreWebServer.Lib BreWebServer.Cpp

/-- Header lines, each with a colon, up to a blank line or up to an unfinished line. -/
inductive HeaderBytes : Bytes → Prop
  | pending (p : Bytes) : ¬ crlf <:+: p → HeaderBytes p
  | blank (rest : Bytes) : HeaderBytes (crlf ++ rest)
  | line (l rest : Bytes) : l ≠ [] → colon ∈ l → ¬ crlf <:+: l → HeaderBytes rest → HeaderBytes (l ++ crlf ++ rest)

/-- No line of `s` is malformed: an unfinished request line begins with a method and a
    space, or is itself the beginning of a method; a finished one has its three parts,
    and the header lines behind it have their colons. -/
def Viable (s : Bytes) : Prop :=
  (¬ crlf <:+: s ∧ ∃ token method, (token, method) ∈ methodTable ∧ (s <+: token ∨ token ++ [sp] <+: s)) ∨
  ∃ token method path version rest, (token, method) ∈ methodTable ∧ sp ∉ path ∧
    ¬ crlf <:+: requestLine token path version ∧ HeaderBytes rest ∧ s = requestLine token path version ++ crlf ++ rest

/-! ## Prefixes -/

theorem cut_prefix {s t line rest : Bytes} (hs : crlf <:+: s) (h : cut crlf (s ++ t) = some (line, rest)) :
    ∃ r, s = line ++ crlf ++ r ∧ rest = r ++ t := by
  cases hc : cut crlf s with
  | none => exact absurd hs ((cut_eq_none_iff crlf_ne_nil s).mp hc)
  | some p =>
    rw [cut_append crlf_ne_nil hc] at h
    cases h
    exact ⟨p.2, cut_eq hc, rfl⟩

theorem headerBytes_prefix {b : Bytes} (h : HeaderBytes b) : ∀ {s t : Bytes}, b = s ++ t → HeaderBytes s := by
  induction h with
  | pending p hp =>
    intro s t heq
    subst heq
    exact .pending s fun hi => hp (hi.trans (List.prefix_append s t).isInfix)
  | blank rest =>
    intro s t he
    by_cases hs : crlf <:+: s
    · obtain ⟨r, rfl, _⟩ := cut_prefix hs (he ▸ cut_crlf_blank rest)
      exact .blank r
    · exact .pending s hs
  | line l rest hne hc hl _ ih =>
    intro s t he
    by_cases hs : crlf <:+: s
    · obtain ⟨r, rfl, hr⟩ := cut_prefix hs (he ▸ cut_crlf hl rest)
      exact .line l r hne hc hl (ih hr)
    · exact .pending s hs

theorem viable_prefix {s t : Bytes} (h : Viable (s ++ t)) : Viable s := by
  rcases h with ⟨hn, token, method, ht, hp⟩ | ⟨token, method, path, version, rest, ht, hp, hc, hb, he⟩
  · refine Or.inl ⟨fun hi => hn (hi.trans (List.prefix_append s t).isInfix), token, method, ht, ?_⟩
    rcases hp with hp | hp
    · exact Or.inl ((List.prefix_append s t).trans hp)
    · rcases List.prefix_or_prefix_of_prefix hp (List.prefix_append s t) with h | h
      · exact Or.inr h
      · rcases List.prefix_concat_iff.mp h with rfl | h
        · exact Or.inr (List.prefix_refl _)
        · exact Or.inl h
  · by_cases hs : crlf <:+: s
    · obtain ⟨r, rfl, hr⟩ := cut_prefix hs (he ▸ cut_crlf hc rest)
      exact Or.inr ⟨token, method, path, version, r, ht, hp, hc, headerBytes_prefix hb hr, rfl⟩
    · refine Or.inl ⟨hs, token, method, ht, ?_⟩
      have h1 : token ++ [sp] <+: s ++ t := by
        rw [he]; exact ⟨path ++ sp :: version ++ crlf ++ rest, by simp [requestLine]⟩
      rcases List.prefix_or_prefix_of_prefix h1 (List.prefix_append s t) with h | h
      · exact Or.inr h
      · rcases List.prefix_concat_iff.mp h with rfl | h
        · exact Or.inr (List.prefix_refl _)
        · exact Or.inl h

/-! ## What ends a parse is viable -/

/-- The bytes on which a request in this state can end its parse. -/
def EndsOn (req : HttpRequest) (b : Bytes) : Prop :=
  match req.parseState with
  | .requestLine => Viable b
  | .headers => HeaderBytes b
  | _ => True

theorem endsOn_of_drain (req : HttpRequest) (b : Bytes) : (Reader.drain parseRound req b).1 ≠ none → EndsOn req b := by
  refine Reader.drain_induction resumable (P := fun req b out => out.1 ≠ none → EndsOn req b) ?_ ?_ ?_ req b
  · intro req b req' _ h; exact absurd rfl h
  · intro req b o req' rest h _
    unfold EndsOn
    rcases parseRound_halt h with ⟨hs, rfl, -⟩ | ⟨hs, -⟩ | ⟨hs, -⟩
    · simp only [hs]
      exact .blank rest
    · simp only [hs]
    · simp only [hs]
  · intro req b req' rest h ih hne
    have he := ih hne
    unfold EndsOn at he ⊢
    rcases parseRound_next h with ⟨hs, token, path, version, rfl, hcl, ht, hp, hm, rfl⟩ | ⟨hs, line, rfl, hcl, hr⟩
    · simp only [hs]
      exact Or.inr ⟨token, _, path, version, rest, mem_methodTable.mpr ⟨rfl, hm⟩, hp, hcl, he, rfl⟩
    · simp only [hs]
      by_cases hl : line = []
      · subst hl
        exact .blank rest
      · simp only [headerRound, hl, if_false] at hr
        rcases parseHeader_cases line with ⟨key, value, hk, _, hp⟩ | ⟨_, hp⟩
        · simp only [hp, Round.next.injEq, and_true] at hr
          subst hr
          simp only [hs] at he
          exact .line line rest hl (by simp [hk]) hcl he
        · simp [hp] at hr

theorem viable_of_parse {s : Bytes} (h : (parse .fresh s).1 ≠ .returned false) : Viable s :=
  endsOn_of_drain .fresh s fun hn => h (by simp [parse, hn, toOutcome])

/-! ## Viable bytes can be completed -/

theorem headerBytes_lines {b : Bytes} (h : HeaderBytes b) :
    ∃ lines p, (∀ l ∈ lines, l ≠ [] ∧ colon ∈ l ∧ ¬ crlf <:+: l) ∧
      ((b = glue lines ++ p ∧ ¬ crlf <:+: p) ∨ b = glue lines ++ crlf ++ p) := by
  induction h with
  | pending p hp => exact ⟨[], p, by simp, Or.inl ⟨rfl, hp⟩⟩
  | blank rest => exact ⟨[], rest, by simp, Or.inr rfl⟩
  | line l rest hne hc hl _ ih =>
    obtain ⟨lines, p, hok, hb⟩ := ih
    refine ⟨l :: lines, p, ?_, ?_⟩
    · intro m hm
      rcases List.mem_cons.mp hm with rfl | hm
      · exact ⟨hne, hc, hl⟩
      · exact hok m hm
    · rcases hb with ⟨rfl, hp⟩ | rfl
      · exact Or.inl ⟨by simp [glue], hp⟩
      · exact Or.inr (by simp [glue])

theorem clear_concat {l : Bytes} {z : UInt8} (hz : z ≠ 10) (h : ¬ crlf <:+: l) : ¬ crlf <:+: l ++ [z] := by
  unfold crlf at h ⊢
  rwa [infix_pair_concat hz]

/-- The line that ends any header section: the last `Content-Length` counts. -/
def noBody : Bytes := ascii "Content-Length:0"

theorem announced_noBody (lines : List Bytes) (h : headerName noBody = contentLengthKey ∧ headerValue noBody = ascii "0") :
    Announced (lastValue contentLengthKey (lines ++ [noBody])) [] := by
  have : lastValue contentLengthKey (lines ++ [noBody]) = some (ascii "0") := by
    simp [lastValue, h.1, h.2]
  rw [this]
  show stoull (ascii "0") = .ok 0
  decide

/-- A finished request line and an unfinished header section. -/
theorem complete_pending {token path version p : Bytes} {method : HttpMethod} {lines : List Bytes}
    (ht : (token, method) ∈ methodTable) (hp : sp ∉ path) (hc : ¬ crlf <:+: requestLine token path version)
    (hok : ∀ l ∈ lines, l ≠ [] ∧ colon ∈ l ∧ ¬ crlf <:+: l) (hpc : ¬ crlf <:+: p) :
    ∃ t, IsRequest (requestLine token path version ++ crlf ++ (glue lines ++ p) ++ t) token method path version
      (lines ++ [p ++ [colon]] ++ [noBody]) [] [] := by
  refine ⟨[colon] ++ crlf ++ (noBody ++ crlf) ++ crlf, ⟨by simp [glue], ht, hp, hc, ?_, ?_⟩⟩
  · intro l hl
    simp only [List.mem_append, List.mem_singleton] at hl
    rcases hl with (hl | rfl) | rfl
    · exact hok l hl
    · exact ⟨by simp, by simp, clear_concat (by decide) hpc⟩
    · exact ⟨by decide, by decide, by decide⟩
  · exact announced_noBody _ (by decide)

/-- A finished header section whose length is read, with part of the body or more. -/
theorem complete_blank {token path version p : Bytes} {method : HttpMethod} {lines : List Bytes}
    (ht : (token, method) ∈ methodTable) (hp : sp ∉ path) (hc : ¬ crlf <:+: requestLine token path version)
    (hok : ∀ l ∈ lines, l ≠ [] ∧ colon ∈ l ∧ ¬ crlf <:+: l)
    (hn : ∀ value e, lastValue contentLengthKey lines = some value → stoull value ≠ .error e) :
    ∃ t body rest, IsRequest (requestLine token path version ++ crlf ++ (glue lines ++ crlf ++ p) ++ t)
      token method path version lines body rest := by
  cases hv : lastValue contentLengthKey lines with
  | none =>
    refine ⟨[], [], p, ⟨by simp, ht, hp, hc, hok, ?_⟩⟩
    rw [hv]; rfl
  | some value =>
    cases hs : stoull value with
    | error e => exact absurd hs (hn value e hv)
    | ok n =>
      refine ⟨List.replicate n 0, (p ++ List.replicate n 0).take n, (p ++ List.replicate n 0).drop n,
        ⟨by simp only [List.take_append_drop, List.append_assoc], ht, hp, hc, hok, ?_⟩⟩
      rw [hv]
      show stoull value = .ok _
      rw [hs, List.length_take_of_le (by simp)]

theorem parse_throws {token path version p value : Bytes} {method : HttpMethod} {lines : List Bytes} {e : Exc}
    (ht : (token, method) ∈ methodTable) (hp : sp ∉ path) (hc : ¬ crlf <:+: requestLine token path version)
    (hok : ∀ l ∈ lines, l ≠ [] ∧ colon ∈ l ∧ ¬ crlf <:+: l) (hv : lastValue contentLengthKey lines = some value)
    (he : stoull value = .error e) :
    (parse .fresh (requestLine token path version ++ crlf ++ (glue lines ++ crlf ++ p))).1 = .threw e := by
  have hd : Reader.drain parseRound .fresh (requestLine token path version ++ crlf ++ (glue lines ++ crlf ++ p)) =
      (some (.threw e), afterHead method path version (withLines ∅ lines), p) := by
    rw [drain_requestLine ht hp hc, List.append_assoc, drain_section rfl hok]
    simp only [bodyStep, afterHead, lookup_withLines, hv, Option.some_or, he]
  rw [parse_of_halt hd]

theorem viable_completes {s : Bytes} (hv : Viable s) (hf : (parse .fresh s).1 = .returned false) :
    ∃ t, (parse .fresh (s ++ t)).1 = .returned true := by
  have accept : ∀ {b token : Bytes} {method : HttpMethod} (path version : Bytes) (lines : List Bytes) (body rest : Bytes),
      IsRequest b token method path version lines body rest → (parse .fresh b).1 = .returned true := by
    intro b token method path version lines body rest h
    obtain ⟨n, hn⟩ := parse_of_isRequest h
    rw [hn]
  rcases hv with ⟨hn, token, method, ht, ⟨u, rfl⟩ | ⟨u, rfl⟩⟩ | ⟨token, method, path, version, rest, ht, hp, hc, hb, rfl⟩
  · refine ⟨u ++ [sp, sp] ++ crlf ++ crlf, accept [] [] [] [] []
      ⟨by simp [requestLine, glue], ht, by simp, ?_, by simp, rfl⟩⟩
    have : ∀ q ∈ methodTable, ¬ crlf <:+: requestLine q.1 [] [] := by decide
    exact this _ ht
  · cases hu : cut [sp] u with
    | none =>
      have hsp := cut_one_none_iff.mp hu
      refine ⟨[sp] ++ crlf ++ crlf, accept u [] [] [] []
        ⟨by simp [requestLine, glue], ht, hsp, ?_, by simp, rfl⟩⟩
      have := clear_concat (z := sp) (by decide) hn
      simpa [requestLine] using this
    | some q =>
      obtain ⟨path, version⟩ := q
      obtain ⟨rfl, hsp⟩ := cut_one_iff.mp hu
      refine ⟨crlf ++ crlf, accept path version [] [] []
        ⟨by simp [requestLine, glue], ht, hsp, ?_, by simp, rfl⟩⟩
      simpa [requestLine] using hn
  · obtain ⟨lines, p, hok, ⟨rfl, hpc⟩ | rfl⟩ := headerBytes_lines hb
    · obtain ⟨t, h⟩ := complete_pending ht hp hc hok hpc
      exact ⟨t, accept _ _ _ _ _ h⟩
    · have hne : ∀ value e, lastValue contentLengthKey lines = some value → stoull value ≠ .error e := by
        intro value e hv he
        rw [parse_throws ht hp hc hok hv he] at hf
        cases hf
      obtain ⟨t, body, rest, h⟩ := complete_blank (p := p) ht hp hc hok hne
      exact ⟨t, accept _ _ _ _ _ h⟩

/-- A parse of `s` that returned false can be completed exactly when `s` is viable; one
    that did not return false has read viable bytes only. -/
theorem extendable_iff_viable (s : Bytes) :
    ((parse .fresh s).1 = .returned false → ∃ t, (parse .fresh (s ++ t)).1 = .returned true) ↔ Viable s := by
  constructor
  · intro h
    by_cases hf : (parse .fresh s).1 = .returned false
    · obtain ⟨t, ht⟩ := h hf
      exact viable_prefix (viable_of_parse (by rw [ht]; simp))
    · exact viable_of_parse hf
  · exact viable_completes

end BreWebServer.Http
