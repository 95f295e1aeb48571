import Mathlib.Data.List.Sort
import Mathlib.Order.Defs.LinearOrder

/-!
# Ranks in a list

`HasRank l k v` says that `v` may stand at index `k` when `l` is sorted: more than `k` elements are at
most `v` and no more than `k` are less. The list itself need not be sorted, and a rank has one value.
-/
namespace Serverless.Library

universe u

variable {α : Type u} [LinearOrder α] {l l' : List α} {j k : Nat} {v w : α}

structure HasRank (l : List α) (k : Nat) (v : α) : Prop where
  atMost : k < l.countP (· ≤ v)
  less : l.countP (· < v) ≤ k

namespace HasRank

theorem of_sorted (hs : l.Pairwise (· ≤ ·)) (h : l[k]? = some v) : HasRank l k v := by
  obtain ⟨hk, rfl⟩ := List.getElem?_eq_some_iff.mp h
  constructor
  · -- the elements up to index `k` are at most the one there
    have htake : (l.take (k + 1)).countP (· ≤ l[k]) = (l.take (k + 1)).length := by
      refine List.countP_eq_length.mpr fun a ha => ?_
      obtain ⟨i, hi, rfl⟩ := List.mem_take_iff_getElem.mp ha
      have hik : i ≤ k := by omega
      rcases hik.lt_or_eq with hlt | rfl
      · simpa using List.pairwise_iff_getElem.mp hs i k (by omega) hk hlt
      · simp
    have hsub := (List.take_sublist (k + 1) l).countP_le (p := fun a => decide (a ≤ l[k]))
    rw [htake, List.length_take] at hsub
    omega
  · -- those from index `k` on are not less
    have hdrop : (l.drop k).countP (· < l[k]) = 0 := by
      refine List.countP_eq_zero.mpr fun a ha => ?_
      obtain ⟨i, hi, rfl⟩ := List.mem_drop_iff_getElem.mp ha
      rcases Nat.eq_zero_or_pos i with rfl | hpos
      · simp
      · simpa using List.pairwise_iff_getElem.mp hs k (k + i) hk (by omega) (by omega)
    have hsplit : l.countP (· < l[k]) = (l.take k).countP (· < l[k]) + (l.drop k).countP (· < l[k]) := by
      rw [← List.countP_append, List.take_append_drop]
    have htake : (l.take k).countP (· < l[k]) ≤ (l.take k).length := List.countP_le_length
    rw [List.length_take] at htake
    omega

theorem perm (h : HasRank l k v) (hp : l.Perm l') : HasRank l' k v :=
  ⟨hp.countP_eq _ ▸ h.atMost, hp.countP_eq _ ▸ h.less⟩

/-- A higher rank has no lower value. -/
theorem mono (hj : HasRank l j v) (hk : HasRank l k w) (hjk : j ≤ k) : v ≤ w := by
  by_contra hlt
  have hcount : l.countP (· ≤ w) ≤ l.countP (· < v) :=
    List.countP_mono_left fun a _ ha => by
      simp only [decide_eq_true_eq] at ha ⊢
      exact ha.trans_lt (not_le.mp hlt)
  have hatMost := hk.atMost
  have hless := hj.less
  omega

end HasRank

/-- The element at an index of the sorted list. -/
theorem hasRank_sorted (l : List α) (hk : k < l.length) :
    ∃ v, (l.insertionSort (· ≤ ·))[k]? = some v ∧ HasRank l k v := by
  have hlen : k < (l.insertionSort (· ≤ ·)).length := by
    rw [List.length_insertionSort]
    exact hk
  have hget := List.getElem?_eq_getElem hlen
  exact ⟨_, hget, (HasRank.of_sorted (List.pairwise_insertionSort (· ≤ ·) l) hget).perm
    (List.perm_insertionSort (· ≤ ·) l)⟩

end Serverless.Library
