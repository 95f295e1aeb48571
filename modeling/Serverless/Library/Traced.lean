/-!
# Computations that call the outside world

A computation is the list of the calls it makes and how it ends. What a call returns is decided
before the computation runs, so a computation is a value; sequencing, handlers and `finally`
act on the calls and on the ending.
-/
namespace Serverless.Library

universe u v w

/-- The calls made, in order, and the value or exception at the end. -/
structure Traced (κ : Type u) (ε : Type v) (α : Type w) where
  calls : List κ
  outcome : Except ε α

namespace Traced

variable {κ : Type u} {ε : Type v} {α β : Type w}

protected def pure (a : α) : Traced κ ε α := ⟨[], .ok a⟩

/-- An exception ends the computation; nothing after it is called. -/
protected def bind (x : Traced κ ε α) (f : α → Traced κ ε β) : Traced κ ε β :=
  match x.outcome with
  | .error e => ⟨x.calls, .error e⟩
  | .ok a => ⟨x.calls ++ (f a).calls, (f a).outcome⟩

instance : Monad (Traced κ ε) where
  pure := Traced.pure
  bind := Traced.bind

/-- One call and what comes of it. -/
def perform (call : κ) (outcome : Except ε α) : Traced κ ε α := ⟨[call], outcome⟩

/-- `raise`. -/
def raise (e : ε) : Traced κ ε α := ⟨[], .error e⟩

/-- `try: x except C: handler`, where `caught` tells the exceptions of the class. -/
def handle (x : Traced κ ε α) (caught : ε → Bool) (handler : ε → Traced κ ε α) : Traced κ ε α :=
  match x.outcome with
  | .ok _ => x
  | .error e =>
    if caught e then ⟨x.calls ++ (handler e).calls, (handler e).outcome⟩ else x

/-- `try: x finally: cleanup`. An exception of the cleanup replaces the ending of the body. -/
def ensure (x : Traced κ ε α) (cleanup : Traced κ ε PUnit.{w + 1}) : Traced κ ε α :=
  match cleanup.outcome with
  | .ok _ => ⟨x.calls ++ cleanup.calls, x.outcome⟩
  | .error e => ⟨x.calls ++ cleanup.calls, .error e⟩

/-- Every call the computation makes is of a kind. -/
def Makes (kind : κ → Prop) (x : Traced κ ε α) : Prop := ∀ call ∈ x.calls, kind call

/-- The computation makes no call of a kind. -/
def Avoids (kind : κ → Prop) (x : Traced κ ε α) : Prop := ∀ call ∈ x.calls, ¬ kind call

variable {kind : κ → Prop}

theorem bind_error {x : Traced κ ε α} {f : α → Traced κ ε β} {e : ε} (h : x.outcome = .error e) :
    x >>= f = ⟨x.calls, .error e⟩ := by
  show Traced.bind x f = _
  simp [Traced.bind, h]

theorem bind_ok {x : Traced κ ε α} {f : α → Traced κ ε β} {a : α} (h : x.outcome = .ok a) :
    x >>= f = ⟨x.calls ++ (f a).calls, (f a).outcome⟩ := by
  show Traced.bind x f = _
  simp [Traced.bind, h]

/-- A sequence that returns has returned from both of its parts. -/
theorem outcome_bind {x : Traced κ ε α} {f : α → Traced κ ε β} {b : β}
    (h : (x >>= f).outcome = .ok b) :
    ∃ a, x.outcome = .ok a ∧ (f a).outcome = .ok b ∧ (x >>= f).calls = x.calls ++ (f a).calls := by
  cases ho : x.outcome with
  | error e =>
    rw [bind_error ho] at h
    cases h
  | ok a =>
    rw [bind_ok ho] at h ⊢
    exact ⟨a, rfl, h, rfl⟩

theorem handle_ok {x : Traced κ ε α} {caught : ε → Bool} {handler : ε → Traced κ ε α} {a : α}
    (h : x.outcome = .ok a) : x.handle caught handler = x := by
  simp [handle, h]

theorem handle_caught {x : Traced κ ε α} {caught : ε → Bool} {handler : ε → Traced κ ε α} {e : ε}
    (h : x.outcome = .error e) (hc : caught e = true) :
    x.handle caught handler = ⟨x.calls ++ (handler e).calls, (handler e).outcome⟩ := by
  simp [handle, h, hc]

theorem handle_uncaught {x : Traced κ ε α} {caught : ε → Bool} {handler : ε → Traced κ ε α} {e : ε}
    (h : x.outcome = .error e) (hc : caught e = false) : x.handle caught handler = x := by
  simp [handle, h, hc]

/-- A computation under a handler that returns has returned itself, or its handler has. -/
theorem outcome_handle {x : Traced κ ε α} {caught : ε → Bool} {handler : ε → Traced κ ε α} {a : α}
    (h : (x.handle caught handler).outcome = .ok a) :
    (x.outcome = .ok a ∧ (x.handle caught handler).calls = x.calls) ∨
      ∃ e, x.outcome = .error e ∧ (handler e).outcome = .ok a := by
  cases ho : x.outcome with
  | ok a' =>
    rw [handle_ok ho] at h ⊢
    exact .inl ⟨ho ▸ h, rfl⟩
  | error e =>
    cases hc : caught e with
    | false =>
      rw [handle_uncaught ho hc, ho] at h
      cases h
    | true =>
      rw [handle_caught ho hc] at h
      exact .inr ⟨e, rfl, h⟩

/-- A computation with a handler that returns, for every exception it can end in, returns. -/
theorem handle_returns (x : Traced κ ε α) (caught : ε → Bool) (default : α)
    (h : ∀ e, x.outcome = .error e → caught e = true) :
    ∃ a, (x.handle caught fun _ => pure default).outcome = .ok a := by
  cases ho : x.outcome with
  | ok a => exact ⟨a, by rw [handle_ok ho, ho]⟩
  | error e => exact ⟨default, by rw [handle_caught ho (h e ho)]; rfl⟩

theorem ensure_calls (x : Traced κ ε α) (cleanup : Traced κ ε PUnit) :
    (x.ensure cleanup).calls = x.calls ++ cleanup.calls := by
  unfold ensure
  split <;> rfl

/-- A cleanup that raises nothing leaves the ending alone. -/
theorem ensure_outcome {x : Traced κ ε α} {cleanup : Traced κ ε PUnit} (h : cleanup.outcome = .ok ⟨⟩) :
    (x.ensure cleanup).outcome = x.outcome := by
  simp [ensure, h]

/-- A call of a sequence is one of its first part, or one of its second part, which is reached. -/
theorem mem_bind_calls {x : Traced κ ε α} {f : α → Traced κ ε β} {call : κ} :
    call ∈ (x >>= f).calls ↔ call ∈ x.calls ∨ ∃ a, x.outcome = .ok a ∧ call ∈ (f a).calls := by
  cases ho : x.outcome with
  | error e => simp [bind_error ho]
  | ok a => simp [bind_ok ho]

theorem mem_perform_calls {call c : κ} {outcome : Except ε α} :
    c ∈ (perform call outcome).calls ↔ c = call :=
  List.mem_singleton

/-- A handler that gives a default makes no calls of its own. -/
theorem mem_handle_pure_calls {x : Traced κ ε α} {caught : ε → Bool} {default : α} {call : κ} :
    call ∈ (x.handle caught fun _ => pure default).calls ↔ call ∈ x.calls := by
  cases ho : x.outcome with
  | ok a => rw [handle_ok ho]
  | error e =>
    cases hc : caught e with
    | false => rw [handle_uncaught ho hc]
    | true =>
      rw [handle_caught ho hc]
      show call ∈ x.calls ++ [] ↔ _
      rw [List.append_nil]

theorem makes_pure (a : α) : Makes kind (pure a : Traced κ ε α) := by
  intro call h
  cases h

theorem makes_raise (e : ε) : Makes kind (raise e : Traced κ ε α) := by
  intro call h
  cases h

theorem makes_perform {call : κ} {outcome : Except ε α} (h : kind call) :
    Makes kind (perform call outcome) := by
  intro c hc
  rwa [List.mem_singleton.mp hc]

theorem Makes.bind {x : Traced κ ε α} {f : α → Traced κ ε β} (hx : Makes kind x)
    (hf : ∀ a, x.outcome = .ok a → Makes kind (f a)) : Makes kind (x >>= f) := by
  intro call hc
  cases ho : x.outcome with
  | error e =>
    rw [bind_error ho] at hc
    exact hx call hc
  | ok a =>
    rw [bind_ok ho] at hc
    rcases List.mem_append.mp hc with hc | hc
    · exact hx call hc
    · exact hf a ho call hc

theorem Makes.handle {x : Traced κ ε α} {caught : ε → Bool} {handler : ε → Traced κ ε α}
    (hx : Makes kind x) (hh : ∀ e, Makes kind (handler e)) : Makes kind (x.handle caught handler) := by
  intro call hc
  cases ho : x.outcome with
  | ok a =>
    rw [handle_ok ho] at hc
    exact hx call hc
  | error e =>
    cases hcaught : caught e with
    | false =>
      rw [handle_uncaught ho hcaught] at hc
      exact hx call hc
    | true =>
      rw [handle_caught ho hcaught] at hc
      rcases List.mem_append.mp hc with hc | hc
      · exact hx call hc
      · exact hh e call hc

theorem Makes.ensure {x : Traced κ ε α} {cleanup : Traced κ ε PUnit} (hx : Makes kind x)
    (hc : Makes kind cleanup) : Makes kind (x.ensure cleanup) := by
  intro call hcall
  rw [ensure_calls] at hcall
  exact (List.mem_append.mp hcall).elim (hx call) (hc call)

theorem avoids_pure (a : α) : Avoids kind (pure a : Traced κ ε α) := makes_pure a

theorem avoids_raise (e : ε) : Avoids kind (raise e : Traced κ ε α) := makes_raise e

theorem avoids_perform {call : κ} {outcome : Except ε α} (h : ¬ kind call) :
    Avoids kind (perform call outcome) := makes_perform h

theorem Avoids.bind {x : Traced κ ε α} {f : α → Traced κ ε β} (hx : Avoids kind x)
    (hf : ∀ a, Avoids kind (f a)) : Avoids kind (x >>= f) := Makes.bind hx fun a _ => hf a

theorem Avoids.handle {x : Traced κ ε α} {caught : ε → Bool} {handler : ε → Traced κ ε α}
    (hx : Avoids kind x) (hh : ∀ e, Avoids kind (handler e)) : Avoids kind (x.handle caught handler) :=
  Makes.handle hx hh

end Traced

end Serverless.Library
