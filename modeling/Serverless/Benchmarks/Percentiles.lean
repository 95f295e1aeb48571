import Serverless.Library.Queries
import Serverless.Library.Ranks
import Serverless.Model.Benchmarks
import Serverless.Model.Rounding

/-!
# Nearest-rank percentiles

The percentile `p` of `n` durations is the one of rank `⌈p * n⌉`, in the dashboard and in the
benchmark. What is sorted where does not matter, since a rank has one value.
-/
namespace Serverless.Benchmarks

open Serverless.Library Serverless.Model

/-- The index that both functions compute is in bounds, and one less than the rank. -/
theorem index_spec {n : Nat} (hn : 0 < n) {p : ℚ} (hp : 0 < p) (hp' : p ≤ 1) :
    ∃ k < n, ⌈(n : ℚ) * p⌉ = k + 1 ∧ (max 0 (⌈(n : ℚ) * p⌉ - 1)).toNat = k := by
  have hpos : (0 : ℚ) < n := by exact_mod_cast hn
  have hlow : 0 < ⌈(n : ℚ) * p⌉ := Int.ceil_pos.mpr (mul_pos hpos hp)
  have hhigh : ⌈(n : ℚ) * p⌉ ≤ n := by
    refine Int.ceil_le.mpr ?_
    push_cast
    exact mul_le_of_le_one_right hpos.le hp'
  refine ⟨(⌈(n : ℚ) * p⌉ - 1).toNat, ?_, ?_, ?_⟩
  · omega
  · omega
  · rw [max_eq_right (by omega)]

section Durations

variable {durations : List Int} {p q : ℚ}

theorem percentile_hasRank (h : durations ≠ []) (hp : 0 < p) (hp' : p ≤ 1) :
    ∃ k < durations.length, ⌈(durations.length : ℚ) * p⌉ = k + 1 ∧
      ∃ v, percentile (durations.insertionSort (· ≤ ·)) p = some v ∧ HasRank durations k v := by
  obtain ⟨k, hk, hrank, hindex⟩ := index_spec (List.length_pos_of_ne_nil h) hp hp'
  obtain ⟨v, hv, hasRank⟩ := hasRank_sorted durations hk
  have hne : durations.insertionSort (· ≤ ·) ≠ [] := by
    intro hnil
    rw [hnil] at hv
    cases hv
  refine ⟨k, hk, hrank, v, ?_, hasRank⟩
  unfold percentile
  rw [if_neg hne, List.length_insertionSort, hindex]
  exact hv

/-- A larger percentile has no lower value. -/
theorem percentile_mono (hp : 0 < p) (hpq : p ≤ q) (hq : q ≤ 1) {v w : Int}
    (hv : percentile (durations.insertionSort (· ≤ ·)) p = some v)
    (hw : percentile (durations.insertionSort (· ≤ ·)) q = some w) : v ≤ w := by
  have h : durations ≠ [] := by
    rintro rfl
    cases hv
  obtain ⟨j, -, hj, v', hv', hrank⟩ := percentile_hasRank h hp (hpq.trans hq)
  obtain ⟨k, -, hk, w', hw', hrank'⟩ := percentile_hasRank h (hp.trans_le hpq) hq
  rw [hv] at hv'
  rw [hw] at hw'
  cases hv'
  cases hw'
  have hceil : ⌈(durations.length : ℚ) * p⌉ ≤ ⌈(durations.length : ℚ) * q⌉ :=
    Int.ceil_le_ceil (mul_le_mul_of_nonneg_left hpq (Nat.cast_nonneg _))
  exact hrank.mono hrank' (by omega)

/-- Sorting commutes with reading integers as numbers. -/
theorem sorted_cast (durations : List Int) :
    (durations.map fun d : Int => (d : ℚ)).insertionSort (· ≤ ·) =
      (durations.insertionSort (· ≤ ·)).map fun d : Int => (d : ℚ) :=
  (List.map_insertionSort (· ≤ ·) (· ≤ ·) (fun d : Int => (d : ℚ)) durations
    fun _ _ _ _ => Int.cast_le.symm).symm

/-- The benchmark's percentile of the same durations in any order. -/
theorem benchmark_percentile {shuffled : List Int} (hperm : shuffled.Perm durations) (p : ℚ) :
    Benchmark.percentile (shuffled.map fun d : Int => (d : ℚ)) p =
      (percentile (durations.insertionSort (· ≤ ·)) p).map fun d : Int => (d : ℚ) := by
  have hsorted : shuffled.insertionSort (· ≤ ·) = durations.insertionSort (· ≤ ·) :=
    insertionSort_le_eq_of_perm hperm
  unfold Benchmark.percentile percentile
  rw [sorted_cast, hsorted, List.length_map, hperm.length_eq, List.length_insertionSort]
  by_cases h : durations = []
  · rw [h] at hperm ⊢
    rw [hperm.eq_nil]
    rfl
  · have hshuffled : shuffled.map (fun d : Int => (d : ℚ)) ≠ [] := by
      intro hnil
      rw [List.map_eq_nil_iff.mp hnil] at hperm
      exact h hperm.symm.eq_nil
    have hne : durations.insertionSort (· ≤ ·) ≠ [] := by
      intro hnil
      have hperm' := List.perm_insertionSort (· ≤ ·) durations
      rw [hnil] at hperm'
      exact h hperm'.symm.eq_nil
    rw [if_neg hshuffled, if_neg hne]
    dsimp only
    rw [List.getElem?_map, Option.map_map]
    exact congrArg (fun f => Option.map f _) (funext fun d => roundTo_intCast 2 d)

end Durations

/-- **Percentiles are nearest-rank**, in both copies of the function. -/
theorem percentile_nearest_rank (durations : List Int) (h : durations ≠ []) :
    (∀ p : ℚ, 0 < p → p ≤ 1 →
      (max 0 (⌈(durations.length : ℚ) * p⌉ - 1)).toNat < durations.length ∧
      ∃ v, percentile (durations.insertionSort (· ≤ ·)) p = some v ∧
        ⌈p * (durations.length : ℚ)⌉ ≤ (durations.countP (· ≤ v) : Int) ∧
        (durations.countP (· < v) : Int) < ⌈p * (durations.length : ℚ)⌉) ∧
    (∀ p q : ℚ, 0 < p → p ≤ q → q ≤ 1 → ∀ v w,
      percentile (durations.insertionSort (· ≤ ·)) p = some v →
      percentile (durations.insertionSort (· ≤ ·)) q = some w → v ≤ w) ∧
    ∀ (p : ℚ) (shuffled : List Int), shuffled.Perm durations →
      Benchmark.percentile (shuffled.map fun d : Int => (d : ℚ)) p =
        (percentile (durations.insertionSort (· ≤ ·)) p).map fun d : Int => (d : ℚ) := by
  refine ⟨fun p hp hp' => ?_, fun p q hp hpq hq v w hv hw => percentile_mono hp hpq hq hv hw,
    fun p shuffled hperm => benchmark_percentile hperm p⟩
  obtain ⟨k, hk, hrank, v, hv, hasRank⟩ := percentile_hasRank h hp hp'
  have hatMost := hasRank.atMost
  have hless := hasRank.less
  rw [mul_comm p]
  refine ⟨by rw [hrank]; omega, v, hv, ?_, ?_⟩
  · omega
  · omega

/-- A value that occurs twice is the median and the 75th percentile of four. -/
theorem percentile_nearest_rank_repeated :
    percentile ([3, 1, 2, 2].insertionSort (· ≤ ·)) (1 / 2) = some 2 ∧
      percentile ([3, 1, 2, 2].insertionSort (· ≤ ·)) (3 / 4) = some 2 ∧
      Benchmark.percentile ([2, 3, 2, 1].map fun d : Int => (d : ℚ)) (3 / 4) =
        (percentile ([3, 1, 2, 2].insertionSort (· ≤ ·)) (3 / 4)).map fun d : Int => (d : ℚ) :=
  ⟨by decide +kernel, by decide +kernel,
    (percentile_nearest_rank [3, 1, 2, 2] (by decide)).2.2 (3 / 4) [2, 3, 2, 1] (by decide)⟩

/-- The latencies on the dashboard come in the order of their names. -/
theorem summary_percentiles (db : Database) (ownerId : UUID) (now : Time) {p50 p95 p99 : Int}
    (h50 : (db.getInvocationSummary ownerId now).p50LatencyMs = some p50)
    (h95 : (db.getInvocationSummary ownerId now).p95LatencyMs = some p95)
    (h99 : (db.getInvocationSummary ownerId now).p99LatencyMs = some p99) : p50 ≤ p95 ∧ p95 ≤ p99 :=
  ⟨percentile_mono (by norm_num) (by norm_num) (by norm_num) h50 h95,
    percentile_mono (by norm_num) (by norm_num) (by norm_num) h95 h99⟩

end Serverless.Benchmarks
