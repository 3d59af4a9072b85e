/-
  BreWebServer.Lib.Machine — runs of a machine with a partial step function.

  `step s e` is the state after event `e`, or `none` when `e` cannot happen in `s`. A run
  is a list of events; `Visits` and `Takes` speak of the states it passes through and of
  the events it takes in them.

  Proved: what holds at the start and is kept by every step holds at the end of a run
  (`run_invariant`; `run_invariant_on` for runs of some events only); what is kept by the
  steps that meet a condition holds in every state of a run all of whose steps meet it
  (`visits_invariant`); a run has no more events that cost than its measure and the events
  that gain allow (`run_balance`). A machine whose steps are total and answer is a function
  `σ → ι → ο × σ`; two states that no step tells apart answer every run alike
  (`outputs_alike`).
-/

import Mathlib.Tactic

namespace BreWebServer.Lib.Machine

variable {σ ε : Type*} (step : σ → ε → Option σ)

def run : σ → List ε → Option σ
  | s, [] => some s
  | s, e :: es => (step s e).bind fun t => run t es

/-- A state that the run of `es` from `s` passes through. -/
def Visits (s : σ) (es : List ε) (t : σ) : Prop := ∃ pre post, es = pre ++ post ∧ run step s pre = some t

/-- The run of `es` from `s` takes event `e` in state `t`. -/
def Takes (s : σ) (es : List ε) (t : σ) (e : ε) : Prop := ∃ pre post, es = pre ++ e :: post ∧ run step s pre = some t

variable {step}

theorem run_append (a b : List ε) : ∀ s : σ, run step s (a ++ b) = (run step s a).bind fun t => run step t b := by
  induction a with
  | nil => intro s; rfl
  | cons e a ih =>
    intro s
    simp only [List.cons_append, run]
    cases step s e with
    | none => rfl
    | some t => exact ih t

theorem run_concat (es : List ε) (e : ε) (s : σ) : run step s (es ++ [e]) = (run step s es).bind (step · e) := by
  rw [run_append]
  congr 1
  funext t
  simp only [run]
  cases step t e <;> rfl

theorem run_concat_some {es : List ε} {e : ε} {s u : σ} :
    run step s (es ++ [e]) = some u ↔ ∃ t, run step s es = some t ∧ step t e = some u := by
  rw [run_concat, Option.bind_eq_some_iff]

/-- An event taken by a run that goes through has a next state. -/
theorem takes_step {s t u : σ} {es : List ε} {e : ε} (h : run step s es = some u) (ht : Takes step s es t e) :
    ∃ v, step t e = some v := by
  obtain ⟨pre, post, rfl, hpre⟩ := ht
  rw [run_append, hpre] at h
  have h : (step t e).bind (run step · post) = some u := h
  obtain ⟨v, hv, -⟩ := Option.bind_eq_some_iff.mp h
  exact ⟨v, hv⟩

theorem run_invariant {I : σ → Prop} (hstep : ∀ {s e t}, I s → step s e = some t → I t) (es : List ε) : ∀ {s t : σ},
    I s → run step s es = some t → I t := by
  induction es with
  | nil => intro s t hs h; cases h; exact hs
  | cons e es ih =>
    intro s t hs h
    obtain ⟨u, hu, h⟩ := Option.bind_eq_some_iff.mp h
    exact ih (hstep hs hu) h

/-- What is kept by some events holds after a run of these. -/
theorem run_invariant_on {I : σ → Prop} {ok : ε → Prop} (hstep : ∀ {s e t}, I s → ok e → step s e = some t → I t)
    (es : List ε) (hok : ∀ e ∈ es, ok e) : ∀ {s t : σ}, I s → run step s es = some t → I t := by
  induction es with
  | nil => intro s t hs h; cases h; exact hs
  | cons e es ih =>
    intro s t hs h
    obtain ⟨u, hu, h⟩ := Option.bind_eq_some_iff.mp h
    exact ih (fun e he => hok e (List.mem_cons_of_mem _ he)) (hstep hs (hok e List.mem_cons_self) hu) h

theorem visits_invariant {I : σ → Prop} {ok : σ → ε → Prop} (hstep : ∀ {s e t}, I s → ok s e → step s e = some t → I t)
    {s : σ} {es : List ε} (hs : I s) (hok : ∀ t e, Takes step s es t e → ok t e) : ∀ {t : σ}, Visits step s es t → I t := by
  intro t h
  obtain ⟨pre, post, rfl, h⟩ := h
  induction pre using List.reverseRecOn generalizing post t with
  | nil => cases h; exact hs
  | append_singleton pre e ih =>
    obtain ⟨u, hu, ht⟩ := run_concat_some.mp h
    have hpost : (pre ++ [e]) ++ post = pre ++ e :: post := by simp
    rw [hpost] at hok
    exact hstep (ih (e :: post) hu hok) (hok u e ⟨pre, post, rfl, hu⟩) ht

/-- Where an event that costs lowers a measure and only one that gains raises it, the
    measure bounds the first by the second. -/
theorem run_balance {I : σ → Prop} {ok : ε → Prop} (cost gain : ε → Bool) (measure : σ → Nat)
    (hI : ∀ {s e t}, I s → ok e → step s e = some t → I t)
    (hm : ∀ {s e t}, I s → ok e → step s e = some t → measure t + (cost e).toNat ≤ measure s + (gain e).toNat)
    (es : List ε) (hok : ∀ e ∈ es, ok e) : ∀ {s t : σ}, I s → run step s es = some t →
      measure t + es.countP cost ≤ measure s + es.countP gain := by
  have hcons : ∀ (p : ε → Bool) (e : ε) (es : List ε), (e :: es).countP p = es.countP p + (p e).toNat := by
    intro p e es
    rw [List.countP_cons]
    cases p e <;> rfl
  induction es with
  | nil => intro s t _ h; cases h; exact le_refl _
  | cons e es ih =>
    intro s t hs h
    obtain ⟨u, hu, h⟩ := Option.bind_eq_some_iff.mp h
    have hfirst := hm hs (hok e List.mem_cons_self) hu
    have hrest := ih (fun e he => hok e (List.mem_cons_of_mem _ he)) (hI hs (hok e List.mem_cons_self) hu) h
    rw [hcons, hcons]
    omega

/-! ## Machines that answer -/

section Answering

variable {ι ο : Type*} (f : σ → ι → ο × σ)

/-- The answers to a list of inputs, and the state after them. -/
def outputs : σ → List ι → List ο × σ
  | s, [] => ([], s)
  | s, i :: is =>
    let (o, t) := f s i
    let (os, u) := outputs t is
    (o :: os, u)

theorem outputs_append (is js : List ι) : ∀ s : σ, outputs f s (is ++ js) =
    ((outputs f s is).1 ++ (outputs f (outputs f s is).2 js).1, (outputs f (outputs f s is).2 js).2) := by
  induction is with
  | nil => intro s; rfl
  | cons i is ih =>
    intro s
    simp only [List.cons_append, outputs, ih]

theorem outputs_length (is : List ι) : ∀ s : σ, (outputs f s is).1.length = is.length := by
  induction is with
  | nil => intro s; rfl
  | cons i is ih =>
    intro s
    simp only [outputs, List.length_cons, ih]

variable {f}

/-- States that an input answers alike, and takes to such states again, answer a list of
    inputs alike. -/
theorem outputs_alike {R : σ → σ → Prop} {ok : ι → Prop}
    (hstep : ∀ {s t i}, R s t → ok i → (f s i).1 = (f t i).1 ∧ R (f s i).2 (f t i).2) (is : List ι)
    (hok : ∀ i ∈ is, ok i) : ∀ {s t : σ}, R s t →
      (outputs f s is).1 = (outputs f t is).1 ∧ R (outputs f s is).2 (outputs f t is).2 := by
  induction is with
  | nil => intro s t h; exact ⟨rfl, h⟩
  | cons i is ih =>
    intro s t h
    obtain ⟨ho, hR⟩ := hstep h (hok i List.mem_cons_self)
    obtain ⟨hos, hfinal⟩ := ih (fun i hi => hok i (List.mem_cons_of_mem _ hi)) hR
    exact ⟨by simp only [outputs, ho, hos], hfinal⟩

end Answering

end BreWebServer.Lib.Machine
