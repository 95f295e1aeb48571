import Mathlib.Algebra.Order.Field.Basic
import Mathlib.Algebra.Order.Group.MinMax
import Mathlib.Algebra.BigOperators.Group.List.Basic
import Mathlib.Tactic.FieldSimp
import Mathlib.Tactic.Linarith
import Mathlib.Tactic.Positivity
import Mathlib.Tactic.Ring

/-!
# Token buckets

A bucket holds at most `capacity` tokens and refills at `capacity / period` tokens for each
unit of time. A request is granted when the bucket holds its cost at the request's time. In
this reference bucket a refused request changes nothing and nothing is ever forgotten, so a
request's fate depends only on the grants before it.
-/
namespace Serverless.Library

variable {𝕜 : Type*} [Field 𝕜] [LinearOrder 𝕜]

/-- A capacity that comes back once every period. -/
structure Rate (𝕜 : Type*) [Field 𝕜] [LinearOrder 𝕜] where
  capacity : 𝕜
  period : 𝕜
  capacity_pos : 0 < capacity
  period_pos : 0 < period

namespace Rate

variable (r : Rate 𝕜)

/-- Tokens earned in a span of time. -/
def earned (elapsed : 𝕜) : 𝕜 := elapsed * r.capacity / r.period

/-- Tokens after a span of time in which nothing was spent. -/
def refill (tokens elapsed : 𝕜) : 𝕜 := min r.capacity (tokens + r.earned elapsed)

@[simp] theorem earned_zero : r.earned 0 = 0 := by simp [earned]

theorem earned_add (d e : 𝕜) : r.earned (d + e) = r.earned d + r.earned e := by
  simp only [earned]
  ring

theorem earned_period : r.earned r.period = r.capacity := by
  have hp := r.period_pos.ne'
  simp only [earned]
  field_simp

theorem refill_le_capacity (x e : 𝕜) : r.refill x e ≤ r.capacity := min_le_left _ _

theorem refill_le_add (x e : 𝕜) : r.refill x e ≤ x + r.earned e := min_le_right _ _

theorem refill_zero {x : 𝕜} (hx : x ≤ r.capacity) : r.refill x 0 = x := by
  simpa [refill] using hx

variable [IsStrictOrderedRing 𝕜]

theorem earned_nonneg {e : 𝕜} (he : 0 ≤ e) : 0 ≤ r.earned e :=
  div_nonneg (mul_nonneg he r.capacity_pos.le) r.period_pos.le

theorem earned_mono {d e : 𝕜} (h : d ≤ e) : r.earned d ≤ r.earned e :=
  div_le_div_of_nonneg_right (mul_le_mul_of_nonneg_right h r.capacity_pos.le) r.period_pos.le

theorem refill_nonneg {x e : 𝕜} (hx : 0 ≤ x) (he : 0 ≤ e) : 0 ≤ r.refill x e :=
  le_min r.capacity_pos.le (add_nonneg hx (r.earned_nonneg he))

/-- Refilling piece by piece is refilling at once: the cap of the first piece is absorbed by
the cap of the second. -/
theorem refill_refill (x d : 𝕜) {e : 𝕜} (he : 0 ≤ e) :
    r.refill (r.refill x d) e = r.refill x (d + e) := by
  have hcap : r.capacity ≤ r.capacity + r.earned e := le_add_of_nonneg_right (r.earned_nonneg he)
  simp only [refill, min_add, ← min_assoc, min_eq_left hcap]
  rw [earned_add, add_assoc]

/-- A period fills any bucket. -/
theorem refill_full {x e : 𝕜} (hx : 0 ≤ x) (he : r.period ≤ e) : r.refill x e = r.capacity := by
  have hearned : r.capacity ≤ r.earned e := r.earned_period.symm.trans_le (r.earned_mono he)
  exact min_eq_left (hearned.trans (le_add_of_nonneg_left hx))

/-- The time it takes until a cost is covered. -/
theorem le_refill_iff {x c e : 𝕜} (hc : c ≤ r.capacity) :
    c ≤ r.refill x e ↔ (c - x) * r.period / r.capacity ≤ e := by
  have hearned : c - x ≤ r.earned e ↔ (c - x) * r.period / r.capacity ≤ e := by
    rw [earned, le_div_iff₀ r.period_pos, div_le_iff₀ r.capacity_pos]
  rw [refill, le_min_iff, and_iff_right hc, ← hearned, sub_le_iff_le_add']

end Rate

/-- A request for some tokens at some time. -/
structure Request (𝕜 : Type*) [Field 𝕜] [LinearOrder 𝕜] where
  time : 𝕜
  cost : 𝕜
  cost_nonneg : 0 ≤ cost

/-- What is known of a bucket: its tokens at the time of the last grant. -/
structure Bucket (r : Rate 𝕜) where
  tokens : 𝕜
  since : 𝕜
  nonneg : 0 ≤ tokens
  le_capacity : tokens ≤ r.capacity

namespace Bucket

variable {r : Rate 𝕜}

/-- A bucket that nobody has drawn from. -/
def full (r : Rate 𝕜) (since : 𝕜) : Bucket r := ⟨r.capacity, since, r.capacity_pos.le, le_rfl⟩

/-- The tokens in the bucket at a time. -/
def level (b : Bucket r) (t : 𝕜) : 𝕜 := r.refill b.tokens (max 0 (t - b.since))

theorem level_le_capacity (b : Bucket r) (t : 𝕜) : b.level t ≤ r.capacity := r.refill_le_capacity _ _

/-- A request is granted when the bucket holds its cost. -/
def Grants (b : Bucket r) (q : Request 𝕜) : Prop := q.cost ≤ b.level q.time

instance (b : Bucket r) (q : Request 𝕜) : Decidable (b.Grants q) :=
  inferInstanceAs (Decidable (_ ≤ _))

variable [IsStrictOrderedRing 𝕜]

theorem level_nonneg (b : Bucket r) (t : 𝕜) : 0 ≤ b.level t :=
  r.refill_nonneg b.nonneg (le_max_left _ _)

theorem level_full (since t : 𝕜) : (full r since).level t = r.capacity :=
  min_eq_left (le_add_of_nonneg_right (r.earned_nonneg (le_max_left _ _)))

/-- The level at a later time is the level at an earlier one, refilled. -/
theorem level_later (b : Bucket r) {s t : 𝕜} (hs : b.since ≤ s) (hst : s ≤ t) :
    b.level t = r.refill (b.level s) (t - s) := by
  rw [level, level, r.refill_refill _ _ (sub_nonneg.mpr hst), max_eq_right (sub_nonneg.mpr hs),
    max_eq_right (sub_nonneg.mpr (hs.trans hst))]
  congr 1
  ring

theorem level_le_add (b : Bucket r) {s t : 𝕜} (hs : b.since ≤ s) (hst : s ≤ t) :
    b.level t ≤ b.level s + r.earned (t - s) := by
  rw [b.level_later hs hst]
  exact r.refill_le_add _ _

/-- A granted request takes its tokens; a refused one leaves the bucket as it is. -/
def serve (b : Bucket r) (q : Request 𝕜) : Bucket r :=
  if h : b.Grants q then
    { tokens := b.level q.time - q.cost
      since := q.time
      nonneg := sub_nonneg.mpr h
      le_capacity := (sub_le_self _ q.cost_nonneg).trans (b.level_le_capacity _) }
  else b

theorem serve_of_not_grants {b : Bucket r} {q : Request 𝕜} (h : ¬ b.Grants q) : b.serve q = b := by
  simp [serve, h]

theorem since_serve_le {b : Bucket r} {q : Request 𝕜} (h : b.since ≤ q.time) :
    (b.serve q).since ≤ q.time := by
  unfold serve
  split
  · exact le_rfl
  · exact h

theorem level_serve_of_grants {b : Bucket r} {q : Request 𝕜} (h : b.Grants q) (t : 𝕜) :
    (b.serve q).level t = r.refill (b.level q.time - q.cost) (max 0 (t - q.time)) := by
  simp [serve, h, level]

/-- What a grant costs is missing from the level at that time. -/
theorem level_serve_self {b : Bucket r} {q : Request 𝕜} (h : b.Grants q) :
    (b.serve q).level q.time + q.cost = b.level q.time := by
  have hle : b.level q.time - q.cost ≤ r.capacity :=
    (sub_le_self _ q.cost_nonneg).trans (b.level_le_capacity _)
  rw [level_serve_of_grants h, sub_self, max_self, r.refill_zero hle, sub_add_cancel]

/-- The bucket after some requests. -/
def after (b : Bucket r) (qs : List (Request 𝕜)) : Bucket r := qs.foldl serve b

/-- The requests that are granted, in their order. -/
def granted (b : Bucket r) : List (Request 𝕜) → List (Request 𝕜)
  | [] => []
  | q :: qs => if b.Grants q then q :: (b.serve q).granted qs else (b.serve q).granted qs

theorem granted_sublist (b : Bucket r) (qs : List (Request 𝕜)) : (b.granted qs).Sublist qs := by
  induction qs generalizing b with
  | nil => exact .slnil
  | cons q qs ih =>
    unfold granted
    split
    · exact (ih _).cons_cons q
    · exact (ih _).cons q

/-- Refused requests can be left out: they change neither the bucket nor what is granted. -/
theorem after_granted (b : Bucket r) (qs : List (Request 𝕜)) :
    b.after (b.granted qs) = b.after qs := by
  induction qs generalizing b with
  | nil => rfl
  | cons q qs ih =>
    by_cases h : b.Grants q
    · simpa [granted, h, after] using ih (b.serve q)
    · simpa [granted, h, after, serve_of_not_grants h] using ih b

/-- The cost of the requests of a list made in a window of time. -/
def costWithin (s t : 𝕜) (qs : List (Request 𝕜)) : 𝕜 :=
  ((qs.filter fun q => s ≤ q.time ∧ q.time ≤ t).map (·.cost)).sum

omit [IsStrictOrderedRing 𝕜] in
theorem costWithin_cons (s t : 𝕜) (q : Request 𝕜) (qs : List (Request 𝕜)) :
    costWithin s t (q :: qs) =
      (if s ≤ q.time ∧ q.time ≤ t then q.cost else 0) + costWithin s t qs := by
  by_cases h : s ≤ q.time ∧ q.time ≤ t <;> simp [costWithin, h]

omit [IsStrictOrderedRing 𝕜] in
theorem costWithin_eq_zero {s t : 𝕜} {qs : List (Request 𝕜)} (h : ∀ q ∈ qs, t < q.time) :
    costWithin s t qs = 0 := by
  have hnone : (qs.filter fun q => s ≤ q.time ∧ q.time ≤ t) = [] := by
    apply List.filter_eq_nil_iff.mpr
    intro q hq
    simp [(h q hq).not_ge]
  rw [costWithin, hnone, List.map_nil, List.sum_nil]

/-- Requests in order, the first of which is late, grant nothing in the window. -/
theorem costWithin_granted_late {s t : 𝕜} {q : Request 𝕜} {qs : List (Request 𝕜)} (b : Bucket r)
    (hq : ∀ p ∈ qs, q.time ≤ p.time) (hlate : t < q.time) :
    costWithin s t (b.granted (q :: qs)) = 0 := by
  apply costWithin_eq_zero
  intro p hp
  rcases List.mem_cons.mp ((b.granted_sublist _).subset hp) with rfl | hp
  · exact hlate
  · exact hlate.trans_le (hq p hp)

/-- The potential argument. Tokens spent from a time on were in the bucket at that time or
were earned since: each grant moves its cost from the level to the sum, and the level grows
no faster than tokens are earned. -/
theorem costWithin_le_level {lo s t : 𝕜} {qs : List (Request 𝕜)} (b : Bucket r)
    (hsorted : qs.Pairwise (·.time ≤ ·.time)) (hfrom : ∀ q ∈ qs, s ≤ q.time) (hs : b.since ≤ s)
    (hst : s ≤ t) : costWithin lo t (b.granted qs) ≤ b.level s + r.earned (t - s) := by
  induction qs generalizing b s with
  | nil => exact add_nonneg (b.level_nonneg s) (r.earned_nonneg (sub_nonneg.mpr hst))
  | cons q qs ih =>
    obtain ⟨hq, hrest⟩ := List.pairwise_cons.mp hsorted
    have hsq : s ≤ q.time := hfrom q List.mem_cons_self
    by_cases hgrant : b.Grants q
    · by_cases hqt : q.time ≤ t
      · have htail := ih (b.serve q) hrest hq (since_serve_le (hs.trans hsq)) hqt
        have hhead : (if lo ≤ q.time ∧ q.time ≤ t then q.cost else 0) ≤ q.cost := by
          split
          · exact le_rfl
          · exact q.cost_nonneg
        have hearn : r.earned (t - s) = r.earned (q.time - s) + r.earned (t - q.time) := by
          rw [← r.earned_add]
          congr 1
          ring
        have hlevel := b.level_le_add hs hsq
        have hself := level_serve_self hgrant
        simp only [granted, hgrant, if_true, costWithin_cons]
        linarith
      · rw [b.costWithin_granted_late hq (lt_of_not_ge hqt)]
        exact add_nonneg (b.level_nonneg s) (r.earned_nonneg (sub_nonneg.mpr hst))
    · simp only [granted, hgrant, if_false, serve_of_not_grants hgrant]
      exact ih b hrest (fun p hp => hfrom p (List.mem_cons_of_mem q hp)) hs hst

/-- No window of time grants more than a full bucket and what is earned in it. -/
theorem costWithin_granted_le {s t : 𝕜} {qs : List (Request 𝕜)} (b : Bucket r)
    (hsorted : qs.Pairwise (·.time ≤ ·.time)) (hsince : ∀ q ∈ qs, b.since ≤ q.time) (hst : s ≤ t) :
    costWithin s t (b.granted qs) ≤ r.capacity + r.earned (t - s) := by
  induction qs generalizing b with
  | nil => exact add_nonneg r.capacity_pos.le (r.earned_nonneg (sub_nonneg.mpr hst))
  | cons q qs ih =>
    obtain ⟨hq, hrest⟩ := List.pairwise_cons.mp hsorted
    by_cases hqs : q.time < s
    · -- a request before the window only changes the bucket
      have hserved : ∀ p ∈ qs, (b.serve q).since ≤ p.time := fun p hp =>
        (since_serve_le (hsince q List.mem_cons_self)).trans (hq p hp)
      have htail := ih (b.serve q) hrest hserved
      by_cases hgrant : b.Grants q
      · simpa [granted, hgrant, costWithin_cons, hqs.not_ge] using htail
      · simpa [granted, hgrant] using htail
    · have hsq : s ≤ q.time := le_of_not_gt hqs
      by_cases hqt : q.time ≤ t
      · have hfrom : ∀ p ∈ q :: qs, q.time ≤ p.time := by
          intro p hp
          rcases List.mem_cons.mp hp with rfl | hp
          · exact le_rfl
          · exact hq p hp
        calc costWithin s t (b.granted (q :: qs))
            ≤ b.level q.time + r.earned (t - q.time) :=
              b.costWithin_le_level hsorted hfrom (hsince q List.mem_cons_self) hqt
          _ ≤ r.capacity + r.earned (t - s) :=
              add_le_add (b.level_le_capacity _) (r.earned_mono (sub_le_sub_left hsq t))
      · rw [b.costWithin_granted_late hq (lt_of_not_ge hqt)]
        exact add_nonneg r.capacity_pos.le (r.earned_nonneg (sub_nonneg.mpr hst))

end Bucket

end Serverless.Library
