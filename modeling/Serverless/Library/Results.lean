import Mathlib.Data.List.Basic

/-!
# Computations that may fail

What is known after a block of fallible steps has succeeded: each of its steps has.
-/
namespace Serverless.Library

universe u

variable {ε α β : Type u}

theorem bind_eq_ok {x : Except ε α} {f : α → Except ε β} {b : β} (h : x >>= f = .ok b) :
    ∃ a, x = .ok a ∧ f a = .ok b := by
  cases x with
  | error e => cases h
  | ok a => exact ⟨a, rfl, h⟩

theorem forM_eq_ok {f : α → Except ε PUnit.{u + 1}} {l : List α} {u : PUnit} (h : l.forM f = .ok u) :
    ∀ a ∈ l, f a = .ok ⟨⟩ := by
  induction l with
  | nil => simp
  | cons a l ih =>
    obtain ⟨_, ha, hl⟩ := bind_eq_ok (x := f a) (f := fun _ => l.forM f) h
    intro b hb
    rcases List.mem_cons.mp hb with rfl | hb
    · exact ha
    · exact ih hl b hb

/-- A pass that pairs every element with something it computes. -/
theorem mapM_eq_ok {f : α → Except ε β} {g : β → α} (hf : ∀ a b, f a = .ok b → g b = a) {l : List α}
    {l' : List β} (h : l.mapM f = .ok l') : l'.map g = l := by
  induction l generalizing l' with
  | nil =>
    cases h
    rfl
  | cons a l ih =>
    rw [List.mapM_cons] at h
    obtain ⟨b, hb, h⟩ := bind_eq_ok h
    obtain ⟨rest, hrest, h⟩ := bind_eq_ok h
    cases h
    rw [List.map_cons, hf a b hb, ih hrest]

end Serverless.Library
