import Mathlib.Data.List.Basic

/-!
# Logs that only grow

What holds between the entries of a log and what was there before them. A log grows at its end, so
such facts are kept by the old entries and have to be shown for the new one only.
-/
namespace Serverless.Library

universe u

variable {α : Type u} {P : List α → α → Prop} {log : List α} {a : α}

/-- Each entry stands in the relation to the entries before it. -/
def AtEach (P : List α → α → Prop) (log : List α) : Prop :=
  ∀ before e after, log = before ++ e :: after → P before e

/-- Some entry stands in the relation to the entries before it. -/
def AtSome (P : List α → α → Prop) (log : List α) : Prop :=
  ∃ before e after, log = before ++ e :: after ∧ P before e

theorem atEach_nil : AtEach P [] := by
  intro before e after h
  simp at h

theorem AtEach.snoc (h : AtEach P log) (ha : P log a) : AtEach P (log ++ [a]) := by
  intro before e after hsplit
  rcases List.eq_nil_or_concat after with rfl | ⟨after, b, rfl⟩
  · obtain ⟨rfl, rfl⟩ := List.append_singleton_inj.mp hsplit
    exact ha
  · rw [List.concat_eq_append, ← List.cons_append, ← List.append_assoc] at hsplit
    exact h before e after (List.append_singleton_inj.mp hsplit).1

/-- Taking the last entry away leaves the others as they were. -/
theorem AtEach.init (h : AtEach P (log ++ [a])) : AtEach P log := by
  intro before e after hsplit
  exact h before e (after ++ [a]) (by rw [hsplit, List.append_assoc, List.cons_append])

theorem AtEach.last (h : AtEach P (log ++ [a])) : P log a := h log a [] rfl

theorem AtSome.mono {log' : List α} (h : AtSome P log) (hgrows : log <+: log') : AtSome P log' := by
  obtain ⟨before, e, after, rfl, he⟩ := h
  obtain ⟨more, rfl⟩ := hgrows
  exact ⟨before, e, after ++ more, by rw [List.append_assoc, List.cons_append], he⟩

theorem AtSome.here (ha : P log a) : AtSome P (log ++ [a]) := ⟨log, a, [], rfl, ha⟩

end Serverless.Library
