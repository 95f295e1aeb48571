import Mathlib.Algebra.Order.Field.Basic
import Mathlib.Algebra.Order.Group.Abs
import Mathlib.Algebra.Order.Ring.Cast
import Mathlib.Algebra.Ring.Int.Parity
import Mathlib.Tactic.Linarith

/-!
# Rounding to the nearest integer

`NearestEven q n` says that `n` is nearest to `q`, and even if another integer is as near. This
determines `n`, and it grows with `q`.
-/
namespace Serverless.Library

variable {𝕜 : Type*} [Field 𝕜] [LinearOrder 𝕜]

structure NearestEven (q : 𝕜) (n : ℤ) : Prop where
  near : |(n : 𝕜) - q| ≤ 1 / 2
  tie : |(n : 𝕜) - q| = 1 / 2 → Even n

namespace NearestEven

variable {q r : 𝕜} {m n : ℤ}

/-- Everything within half a unit rounds to an even integer. -/
theorem iff_of_even (hn : Even n) : NearestEven q n ↔ |(n : 𝕜) - q| ≤ 1 / 2 :=
  ⟨near, fun h => ⟨h, fun _ => hn⟩⟩

variable [IsStrictOrderedRing 𝕜]

theorem bounds (h : NearestEven q n) : (n : 𝕜) - 1 / 2 ≤ q ∧ q ≤ (n : 𝕜) + 1 / 2 := by
  obtain ⟨hl, hu⟩ := abs_le.mp h.near
  constructor <;> linarith

theorem intCast (n : ℤ) : NearestEven (n : 𝕜) n := by
  refine ⟨by simp, fun h => ?_⟩
  simp at h

/-- Rounding preserves the order. -/
theorem mono (hq : NearestEven q m) (hr : NearestEven r n) (h : q ≤ r) : m ≤ n := by
  by_contra hlt
  have hstep : n + 1 ≤ m := by omega
  have hcast : (n : 𝕜) + 1 ≤ m := by exact_mod_cast hstep
  obtain ⟨hm, -⟩ := hq.bounds
  obtain ⟨-, hn⟩ := hr.bounds
  -- both are midpoints of neighbours, of which one is odd
  have hmq : (m : 𝕜) - q = 1 / 2 := by linarith
  have hnr : (n : 𝕜) - r = -(1 / 2) := by linarith
  have hmn : (m : 𝕜) = n + 1 := by linarith
  have heven : Even m := hq.tie (by rw [hmq, abs_of_pos (by norm_num)])
  have heven' : Even n := hr.tie (by rw [hnr, abs_neg, abs_of_pos (by norm_num)])
  have hodd : m = n + 1 := by exact_mod_cast hmn
  rw [hodd, Int.even_add_one] at heven
  exact heven heven'

theorem unique (hm : NearestEven q m) (hn : NearestEven q n) : m = n :=
  le_antisymm (hm.mono hn le_rfl) (hn.mono hm le_rfl)

end NearestEven

end Serverless.Library
