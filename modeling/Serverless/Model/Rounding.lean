import Serverless.Library.Rounding
import Serverless.Model.Metrics

/-!
# Python's `round`

`roundHalfEven` rounds to the nearest integer, and to an even one in the middle; so `roundTo` keeps
the order and everything that has no more digits than it leaves.
-/
namespace Serverless.Model

open Serverless.Library

theorem roundHalfEven_nearest (q : ℚ) : NearestEven q (roundHalfEven q) := by
  have hlo : ((q.floor : ℤ) : ℚ) ≤ q := Int.floor_le q
  have hhi : q < (q.floor : ℤ) + 1 := Int.lt_floor_add_one q
  unfold roundHalfEven
  dsimp only
  split
  · rename_i hbelow
    have hpos : |((q.floor : ℤ) : ℚ) - q| = q - q.floor := by
      rw [abs_sub_comm, abs_of_nonneg (by linarith)]
    refine ⟨by rw [hpos]; linarith, fun htie => ?_⟩
    rw [hpos] at htie
    linarith
  · rename_i hbelow
    have hpos : |((q.floor + 1 : ℤ) : ℚ) - q| = q.floor + 1 - q := by
      push_cast
      rw [abs_of_nonneg (by linarith)]
    split
    · rename_i habove
      refine ⟨by rw [hpos]; linarith, fun htie => ?_⟩
      rw [hpos] at htie
      linarith
    · rename_i habove
      -- the midpoint goes to the even neighbour
      have hmid : q - q.floor = 1 / 2 := le_antisymm (not_lt.mp habove) (not_lt.mp hbelow)
      split
      · rename_i heven
        have hhalf : |((q.floor : ℤ) : ℚ) - q| = 1 / 2 := by
          rw [abs_sub_comm, abs_of_nonneg (by linarith)]
          exact hmid
        exact ⟨hhalf.le, fun _ => Int.even_iff.mpr heven⟩
      · rename_i hodd
        refine ⟨by rw [hpos]; linarith, fun _ => ?_⟩
        rw [Int.even_add_one, Int.even_iff]
        exact hodd

theorem roundHalfEven_intCast (n : Int) : roundHalfEven n = n :=
  (roundHalfEven_nearest n).unique (NearestEven.intCast n)

theorem roundHalfEven_mono {q r : ℚ} (h : q ≤ r) : roundHalfEven q ≤ roundHalfEven r :=
  (roundHalfEven_nearest q).mono (roundHalfEven_nearest r) h

/-- A multiple of the last digit that is kept stays. -/
theorem roundTo_of_digits {digits : Nat} {n : Int} {q : ℚ} (h : q * 10 ^ digits = n) :
    roundTo digits q = q := by
  unfold roundTo
  rw [h, roundHalfEven_intCast, ← h]
  exact mul_div_cancel_right₀ q (by positivity)

theorem roundTo_intCast (digits : Nat) (n : Int) : roundTo digits (n : ℚ) = n := by
  refine roundTo_of_digits (n := n * 10 ^ digits) ?_
  push_cast
  rfl

theorem roundTo_mono (digits : Nat) {q r : ℚ} (h : q ≤ r) : roundTo digits q ≤ roundTo digits r := by
  have hpow : (0 : ℚ) < 10 ^ digits := by positivity
  have hround : roundHalfEven (q * 10 ^ digits) ≤ roundHalfEven (r * 10 ^ digits) :=
    roundHalfEven_mono (mul_le_mul_of_nonneg_right h hpow.le)
  unfold roundTo
  exact div_le_div_of_nonneg_right (by exact_mod_cast hround) hpow.le

/-- Rounding moves a number by half a unit of the last digit at most. -/
theorem roundTo_near (digits : Nat) (q : ℚ) : |roundTo digits q - q| ≤ 1 / 2 / 10 ^ digits := by
  have hpow : (0 : ℚ) < 10 ^ digits := by positivity
  have hnear := (roundHalfEven_nearest (q * 10 ^ digits)).near
  have heq : roundTo digits q - q =
      ((roundHalfEven (q * 10 ^ digits) : ℚ) - q * 10 ^ digits) / 10 ^ digits := by
    rw [sub_div, mul_div_cancel_right₀ q hpow.ne']
    rfl
  rw [heq, abs_div, abs_of_pos hpow]
  exact div_le_div_of_nonneg_right hnear hpow.le

end Serverless.Model
