/-
  BreWebServer.Http.Stream — the requests that stand one behind the other in a stream.

  `requests` parses a stream with a fresh `HttpRequest` each time, each starting where the
  one before it ended. Proved: what is read off the head of a stream is a prefix of them
  and stays one when the stream grows (`reads_requests`, `reads_append`).
-/

import BreWebServer.Http.Parsing

namespace BreWebServer.Http

open BreWebServer.Lib BreWebServer.Cpp

def requestsWithin : Nat → Bytes → List HttpRequest
  | 0, _ => []
  | n + 1, s =>
    match parse .fresh s with
    | (.returned true, req, rest) => req :: requestsWithin n rest
    | _ => []

/-- At least one byte goes with each request, so the stream's length bounds their number. -/
def requests (s : Bytes) : List HttpRequest := requestsWithin s.length s

/-- Parsing requests off the head of a stream gives these and leaves `rest`. -/
inductive Reads : Bytes → List HttpRequest → Bytes → Prop
  | nil (s : Bytes) : Reads s [] s
  | cons {s s' rest : Bytes} {req : HttpRequest} {reqs : List HttpRequest} :
      parse .fresh s = (.returned true, req, s') → Reads s' reqs rest → Reads s (req :: reqs) rest

theorem parse_shorter {s rest : Bytes} {req : HttpRequest} (h : parse .fresh s = (.returned true, req, rest)) :
    rest.length < s.length := by
  obtain ⟨token, method, path, version, lines, body, hr⟩ := isRequest_of_parse (b := s) (by rw [h])
  have hl := congrArg List.length hr.shape
  simp only [h, requestLine, crlf, List.length_append, List.length_cons] at hl
  omega

theorem requestsWithin_enough (n : Nat) : ∀ {m : Nat} {s : Bytes}, s.length ≤ n → s.length ≤ m →
    requestsWithin n s = requestsWithin m s := by
  induction n with
  | zero =>
    intro m s hn _
    have hs : s = [] := List.length_eq_zero_iff.mp (by omega)
    subst hs
    cases m with
    | zero => rfl
    | succ m => rfl
  | succ n ih =>
    intro m s hn hm
    cases m with
    | zero =>
      have hs : s = [] := List.length_eq_zero_iff.mp (by omega)
      subst hs
      rfl
    | succ m =>
      simp only [requestsWithin]
      split
      · rename_i req rest h
        have := parse_shorter h
        have hr : requestsWithin n rest = requestsWithin m rest := ih (by omega) (by omega)
        rw [hr]
      · rfl

theorem requests_cons {s rest : Bytes} {req : HttpRequest} (h : parse .fresh s = (.returned true, req, rest)) :
    requests s = req :: requests rest := by
  have hl := parse_shorter h
  unfold requests
  cases hn : s.length with
  | zero => omega
  | succ n =>
    simp only [requestsWithin, h]
    rw [requestsWithin_enough n (by omega) (Nat.le_refl _)]

theorem requests_nil {s : Bytes} (h : (parse .fresh s).1 ≠ .returned true) : requests s = [] := by
  unfold requests
  cases s.length with
  | zero => rfl
  | succ n =>
    simp only [requestsWithin]
    split
    · rename_i req rest hp
      rw [hp] at h
      exact absurd rfl h
    · rfl

theorem reads_append {s rest : Bytes} {reqs : List HttpRequest} (h : Reads s reqs rest) (c : Bytes) :
    Reads (s ++ c) reqs (rest ++ c) := by
  induction h with
  | nil s => exact .nil _
  | cons hp _ ih => exact .cons (parse_append (by simp) hp c) ih

theorem reads_concat {s cur rest : Bytes} {req : HttpRequest} {reqs : List HttpRequest} (h : Reads s reqs cur)
    (hp : parse .fresh cur = (.returned true, req, rest)) : Reads s (reqs ++ [req]) rest := by
  induction h with
  | nil s => exact .cons hp (.nil _)
  | cons hq _ ih => exact .cons hq (ih hp)

theorem reads_requests {s rest : Bytes} {reqs : List HttpRequest} (h : Reads s reqs rest) :
    requests s = reqs ++ requests rest := by
  induction h with
  | nil s => rfl
  | cons hp _ ih => rw [requests_cons hp, ih]; rfl

/-- Complete requests, one behind the other, are what the stream of them holds. -/
theorem requests_flatten (bs : List Bytes) (h : ∀ b ∈ bs, ∃ req, parse .fresh b = (.returned true, req, [])) :
    requests bs.flatten = bs.map fun b => (parse .fresh b).2.1 := by
  induction bs with
  | nil => rfl
  | cons b bs ih =>
    obtain ⟨req, hp⟩ := h b (by simp)
    have := parse_append (by simp) hp bs.flatten
    rw [List.flatten_cons, requests_cons this, List.map_cons, hp]
    simp only [List.nil_append]
    rw [ih fun b hb => h b (by simp [hb])]

/-- A complete request and nothing behind it. -/
def OneRequest (b : Bytes) : Prop := ∃ req, parse .fresh b = (.returned true, req, [])

theorem OneRequest.ne_nil {b : Bytes} (h : OneRequest b) : b ≠ [] := by
  obtain ⟨req, hp⟩ := h
  have := parse_shorter hp
  intro hb
  rw [hb] at this
  cases this

theorem OneRequest.append {b : Bytes} (h : OneRequest b) (c : Bytes) :
    parse .fresh (b ++ c) = (.returned true, (parse .fresh b).2.1, c) := by
  obtain ⟨req, hp⟩ := h
  rw [hp]
  simpa using parse_append (by simp) hp c

/-- What is read off complete requests, one behind the other, are the first of them. -/
theorem reads_each {s rest : Bytes} {reqs : List HttpRequest} (h : Reads s reqs rest) : ∀ {bs : List Bytes},
    (∀ b ∈ bs, OneRequest b) → bs.flatten = s →
    ∃ k, reqs = (bs.take k).map (fun b => (parse .fresh b).2.1) ∧ rest = (bs.drop k).flatten := by
  induction h with
  | nil s =>
    intro bs _ hs
    exact ⟨0, rfl, hs.symm⟩
  | cons hp _ ih =>
    intro bs hw hs
    cases bs with
    | nil =>
      have := parse_shorter hp
      rw [← hs] at this
      cases this
    | cons b bs =>
      rw [List.flatten_cons] at hs
      rw [← hs, (hw b (by simp)).append] at hp
      cases hp
      obtain ⟨k, hreqs, hrest⟩ := ih (fun b hb => hw b (by simp [hb])) rfl
      exact ⟨k + 1, by rw [hreqs]; rfl, hrest⟩

end BreWebServer.Http
