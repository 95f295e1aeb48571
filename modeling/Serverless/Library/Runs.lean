import Mathlib.Logic.Basic

/-!
# Runs of a partial step function

A system is a step function `σ → ε → Option σ`: an event either happens in a
state and leads to the next one, or is not enabled there. `Steps` is the run
relation, restricted to runs each of whose events meets a condition in the state
it is taken from. The rules below turn one-step facts into facts about runs.
-/
namespace Serverless.Library

universe u v

variable {σ : Type u} {ε : Type v}

/-- Runs whose every event meets `ok` in the state it happens in. -/
inductive Steps (step : σ → ε → Option σ) (ok : σ → ε → Prop) : σ → σ → Prop where
  | refl (s : σ) : Steps step ok s s
  | tail {s t u : σ} {e : ε} :
      Steps step ok s t → ok t e → step t e = some u → Steps step ok s u

/-- States that some run of `ok` events reaches from an initial state. -/
def ReachableBy (step : σ → ε → Option σ) (ok : σ → ε → Prop) (init : σ → Prop) (s : σ) : Prop :=
  ∃ s₀, init s₀ ∧ Steps step ok s₀ s

/-- States that any run at all reaches from an initial state. -/
def Reachable (step : σ → ε → Option σ) (init : σ → Prop) (s : σ) : Prop :=
  ReachableBy step (fun _ _ => True) init s

variable {step : σ → ε → Option σ} {ok ok' : σ → ε → Prop} {init : σ → Prop}

theorem Steps.trans {s t u : σ} (h : Steps step ok s t) (h' : Steps step ok t u) :
    Steps step ok s u := by
  induction h' with
  | refl => exact h
  | tail _ he hs ih => exact .tail ih he hs

theorem Steps.mono (hok : ∀ s e, ok s e → ok' s e) {s t : σ} (h : Steps step ok s t) :
    Steps step ok' s t := by
  induction h with
  | refl => exact .refl _
  | tail _ he hs ih => exact .tail ih (hok _ _ he) hs

theorem ReachableBy.start {s : σ} (h : init s) : ReachableBy step ok init s :=
  ⟨s, h, .refl s⟩

theorem ReachableBy.next {s t : σ} {e : ε} (h : ReachableBy step ok init s) (he : ok s e)
    (hs : step s e = some t) : ReachableBy step ok init t := by
  obtain ⟨s₀, hi, hr⟩ := h
  exact ⟨s₀, hi, .tail hr he hs⟩

theorem ReachableBy.run {s t : σ} (h : ReachableBy step ok init s) (hr : Steps step ok s t) :
    ReachableBy step ok init t := by
  obtain ⟨s₀, hi, h₀⟩ := h
  exact ⟨s₀, hi, h₀.trans hr⟩

theorem ReachableBy.mono (hok : ∀ s e, ok s e → ok' s e) {s : σ}
    (h : ReachableBy step ok init s) : ReachableBy step ok' init s := by
  obtain ⟨s₀, hi, hr⟩ := h
  exact ⟨s₀, hi, hr.mono hok⟩

theorem ReachableBy.reachable {s : σ} (h : ReachableBy step ok init s) : Reachable step init s :=
  h.mono fun _ _ _ => trivial

/-- The invariant rule. The reachability of the state before the step is handed to
the step lemma, so invariants that are already proved can be used there. -/
theorem ReachableBy.invariant {I : σ → Prop} (hinit : ∀ s, init s → I s)
    (hstep : ∀ {s e t}, ReachableBy step ok init s → I s → ok s e → step s e = some t → I t)
    {s : σ} (h : ReachableBy step ok init s) : I s := by
  obtain ⟨s₀, hi, hr⟩ := h
  induction hr with
  | refl => exact hinit _ hi
  | tail hr he hs ih => exact hstep ⟨_, hi, hr⟩ ih he hs

theorem Reachable.next {s t : σ} {e : ε} (h : Reachable step init s) (hs : step s e = some t) :
    Reachable step init t :=
  ReachableBy.next h trivial hs

theorem Reachable.invariant {I : σ → Prop} (hinit : ∀ s, init s → I s)
    (hstep : ∀ {s e t}, Reachable step init s → I s → step s e = some t → I t)
    {s : σ} (h : Reachable step init s) : I s :=
  ReachableBy.invariant hinit (fun hr hi _ hs => hstep hr hi hs) h

/-- A reflexive and transitive relation that every step from a reachable state
keeps relates the two ends of any run from a reachable state. -/
theorem Steps.relation {R : σ → σ → Prop} (hrefl : ∀ s, R s s)
    (htrans : ∀ {s t u}, R s t → R t u → R s u)
    (hstep : ∀ {s e t}, ReachableBy step ok init s → ok s e → step s e = some t → R s t)
    {s t : σ} (h₀ : ReachableBy step ok init s) (h : Steps step ok s t) : R s t := by
  induction h with
  | refl => exact hrefl _
  | tail hr he hs ih => exact htrans ih (hstep (h₀.run hr) he hs)

/-- The projection rule: a map under which every step of one system is a step of another
takes reachable states to reachable states. -/
theorem ReachableBy.project {τ : Type*} {δ : Type*} {step' : τ → δ → Option τ}
    {ok' : τ → δ → Prop} {init' : τ → Prop} (f : σ → τ) (hinit : ∀ s, init s → init' (f s))
    (hstep : ∀ {s e t}, ok s e → step s e = some t → ∃ e', ok' (f s) e' ∧ step' (f s) e' = some (f t))
    {s : σ} (h : ReachableBy step ok init s) : ReachableBy step' ok' init' (f s) := by
  refine ReachableBy.invariant (I := fun s => ReachableBy step' ok' init' (f s))
    (fun s hi => .start (hinit s hi)) (fun _ hi he hs => ?_) h
  obtain ⟨e', hok, hs'⟩ := hstep he hs
  exact hi.next hok hs'

/-- Replay a list of events. -/
def replay (step : σ → ε → Option σ) : σ → List ε → Option σ
  | s, [] => some s
  | s, e :: es => (step s e).bind fun t => replay step t es

/-- The steps that a list of events takes, each with the states before and after it. An event
that is not enabled ends the run. -/
def trace (step : σ → ε → Option σ) : σ → List ε → List (σ × ε × σ)
  | _, [] => []
  | s, e :: es =>
    match step s e with
    | none => []
    | some t => (s, e, t) :: trace step t es

/-- Every step of a run is taken from a reachable state. -/
theorem Reachable.mem_trace {s : σ} {es : List ε} (h : Reachable step init s) {x : σ × ε × σ}
    (hx : x ∈ trace step s es) : Reachable step init x.1 ∧ step x.1 x.2.1 = some x.2.2 := by
  induction es generalizing s with
  | nil => cases hx
  | cons e es ih =>
    cases hs : step s e with
    | none => simp [trace, hs] at hx
    | some t =>
      simp only [trace, hs, List.mem_cons] at hx
      rcases hx with rfl | hx
      · exact ⟨h, hs⟩
      · exact ih (h.next hs) hx

/-- Replay a list of events, checking a condition before each of them. -/
def replayWhere (step : σ → ε → Option σ) (check : σ → ε → Bool) : σ → List ε → Option σ
  | s, [] => some s
  | s, e :: es => if check s e then (step s e).bind fun t => replayWhere step check t es else none

theorem steps_of_replayWhere {check : σ → ε → Bool} (hok : ∀ s e, check s e = true → ok s e) :
    ∀ {s t : σ} {es : List ε}, replayWhere step check s es = some t → Steps step ok s t
  | s, t, [], h => by
    simp only [replayWhere, Option.some.injEq] at h
    exact h ▸ .refl s
  | s, t, e :: es, h => by
    simp only [replayWhere, Option.ite_none_right_eq_some] at h
    obtain ⟨hc, h⟩ := h
    cases hs : step s e with
    | none => simp [hs] at h
    | some m =>
      simp only [hs, Option.bind_some] at h
      exact (Steps.tail (.refl s) (hok _ _ hc) hs).trans (steps_of_replayWhere hok h)

theorem steps_of_replay {s t : σ} {es : List ε} (h : replay step s es = some t) :
    Steps step (fun _ _ => True) s t := by
  induction es generalizing s with
  | nil =>
    simp only [replay, Option.some.injEq] at h
    exact h ▸ .refl s
  | cons e es ih =>
    simp only [replay] at h
    cases hs : step s e with
    | none => simp [hs] at h
    | some m =>
      simp only [hs, Option.bind_some] at h
      exact (Steps.tail (.refl s) trivial hs).trans (ih h)

/-- A replay that ends in a state where a test answers `true` reaches such a state. -/
theorem reachable_of_replay (step : σ → ε → Option σ) (es : List ε) (p : σ → Bool) {s : σ}
    (hi : init s) (h : (replay step s es).map p = some true) :
    ∃ t, Reachable step init t ∧ p t = true := by
  obtain ⟨t, ht, hp⟩ := Option.map_eq_some_iff.mp h
  exact ⟨t, ⟨s, hi, steps_of_replay ht⟩, hp⟩

theorem reachableBy_of_replayWhere (step : σ → ε → Option σ) {check : σ → ε → Bool}
    (es : List ε) (p : σ → Bool) {s : σ} (hok : ∀ s e, check s e = true → ok s e) (hi : init s)
    (h : (replayWhere step check s es).map p = some true) :
    ∃ t, ReachableBy step ok init t ∧ p t = true := by
  obtain ⟨t, ht, hp⟩ := Option.map_eq_some_iff.mp h
  exact ⟨t, ⟨s, hi, steps_of_replayWhere hok ht⟩, hp⟩

end Serverless.Library
