import Mathlib.Algebra.BigOperators.Group.List.Basic
import Mathlib.Algebra.Order.Ring.Nat
import Mathlib.Data.List.Nodup

/-!
# Sums over groups

A list that is split by a key adds up group by group, and so do counts that are kept in a list of
keys with their numbers.
-/
namespace Serverless.Library

variable {α κ : Type*} [DecidableEq κ]

/-- The numbers that a list of keys and numbers has for a key. -/
def totalFor (counts : List (κ × Nat)) (k : κ) : Nat :=
  ((counts.filter fun count => count.1 = k).map (·.2)).sum

@[simp] theorem totalFor_nil (k : κ) : totalFor ([] : List (κ × Nat)) k = 0 := rfl

theorem totalFor_cons (count : κ × Nat) (counts : List (κ × Nat)) (k : κ) :
    totalFor (count :: counts) k = (if count.1 = k then count.2 else 0) + totalFor counts k := by
  unfold totalFor
  by_cases h : count.1 = k
  · simp [h]
  · simp [h]

theorem totalFor_append (counts counts' : List (κ × Nat)) (k : κ) :
    totalFor (counts ++ counts') k = totalFor counts k + totalFor counts' k := by
  induction counts with
  | nil => simp
  | cons count counts ih => rw [List.cons_append, totalFor_cons, totalFor_cons, ih, Nat.add_assoc]

theorem totalFor_flatMap (l : List α) (counts : α → List (κ × Nat)) (k : κ) :
    totalFor (l.flatMap counts) k = (l.map fun a => totalFor (counts a) k).sum := by
  induction l with
  | nil => rfl
  | cons a l ih => rw [List.flatMap_cons, totalFor_append, ih, List.map_cons, List.sum_cons]

theorem totalFor_of_not_mem {counts : List (κ × Nat)} {k : κ} (h : k ∉ counts.map (·.1)) :
    totalFor counts k = 0 := by
  induction counts with
  | nil => rfl
  | cons count counts ih =>
    simp only [List.map_cons, List.mem_cons, not_or] at h
    rw [totalFor_cons, if_neg (Ne.symm h.1), ih h.2]

/-- With different keys the number of a key is its total. -/
theorem lookup_getD {counts : List (κ × Nat)} (hn : (counts.map (·.1)).Nodup) (k : κ) :
    (counts.lookup k).getD 0 = totalFor counts k := by
  induction counts with
  | nil => rfl
  | cons count counts ih =>
    rw [List.map_cons, List.nodup_cons] at hn
    obtain ⟨key, n⟩ := count
    rw [totalFor_cons]
    by_cases h : key = k
    · subst h
      rw [List.lookup_cons_self, if_pos rfl, totalFor_of_not_mem hn.1]
      rfl
    · have hne : (k == key) = false := beq_eq_false_iff_ne.mpr (Ne.symm h)
      rw [List.lookup_cons, hne, if_neg h, ← ih hn.2, Nat.zero_add]

/-- Counts that are listed under different keys. -/
theorem totalFor_keyed {keys : List κ} (hn : keys.Nodup) (n : κ → Nat) {k : κ} (hk : k ∉ keys → n k = 0) :
    totalFor (keys.map fun key => (key, n key)) k = n k := by
  induction keys with
  | nil => exact (hk List.not_mem_nil).symm
  | cons key keys ih =>
    obtain ⟨hkey, hkeys⟩ := List.nodup_cons.mp hn
    rw [List.map_cons, totalFor_cons]
    by_cases h : key = k
    · subst h
      rw [if_pos rfl, totalFor_of_not_mem]
      · rfl
      · simpa using hkey
    · have hrest : k ∉ keys → n k = 0 := fun hnot => hk (List.not_mem_cons_of_ne_of_not_mem (Ne.symm h) hnot)
      rw [if_neg h, Nat.zero_add, ih hkeys hrest]

theorem sum_ite_key {keys : List κ} (hn : keys.Nodup) {k : κ} (hk : k ∈ keys) (n : Nat) :
    (keys.map fun key => if k = key then n else 0).sum = n := by
  induction keys with
  | nil => cases hk
  | cons key keys ih =>
    obtain ⟨hkey, hkeys⟩ := List.nodup_cons.mp hn
    rw [List.map_cons, List.sum_cons]
    by_cases h : k = key
    · have hzero : ∀ key' ∈ keys, (if k = key' then n else 0) = 0 := by
        intro key' hmem
        refine if_neg fun heq => hkey ?_
        rw [← h, heq]
        exact hmem
      rw [if_pos h, List.map_congr_left hzero]
      simp
    · rw [if_neg h, Nat.zero_add]
      exact ih hkeys ((List.mem_cons.mp hk).resolve_left h)

/-- Counts add up key by key. -/
theorem sum_totalFor {keys : List κ} (hn : keys.Nodup) {counts : List (κ × Nat)}
    (hall : ∀ count ∈ counts, count.1 ∈ keys) :
    (keys.map fun k => totalFor counts k).sum = (counts.map (·.2)).sum := by
  induction counts with
  | nil => simp
  | cons count counts ih =>
    have hrest := ih fun c hc => hall c (List.mem_cons_of_mem count hc)
    have hone := sum_ite_key hn (hall count List.mem_cons_self) count.2
    simp only [totalFor_cons, List.map_cons, List.sum_cons]
    rw [List.sum_map_add, hone, hrest]

/-- A sum of bounded terms is as large as possible only if every term is. -/
theorem sum_eq_length_mul {l : List α} {f : α → Nat} {n : Nat} (hle : ∀ a ∈ l, f a ≤ n) :
    (l.map f).sum = l.length * n ↔ ∀ a ∈ l, f a = n := by
  have hsum : ∀ l : List α, (∀ a ∈ l, f a ≤ n) → (l.map f).sum ≤ l.length * n := by
    intro l hle
    induction l with
    | nil => simp
    | cons a l ih =>
      have ha := hle a List.mem_cons_self
      have hl := ih fun b hb => hle b (List.mem_cons_of_mem a hb)
      rw [List.map_cons, List.sum_cons, List.length_cons, Nat.succ_mul]
      omega
  induction l with
  | nil => simp
  | cons a l ih =>
    have ha := hle a List.mem_cons_self
    have hl : ∀ b ∈ l, f b ≤ n := fun b hb => hle b (List.mem_cons_of_mem a hb)
    have hbound := hsum l hl
    have hrest := ih hl
    rw [List.map_cons, List.sum_cons, List.length_cons, Nat.succ_mul, List.forall_mem_cons]
    constructor
    · intro heq
      exact ⟨by omega, hrest.mp (by omega)⟩
    · rintro ⟨hhead, htail⟩
      have hsumTail := hrest.mpr htail
      omega

end Serverless.Library
