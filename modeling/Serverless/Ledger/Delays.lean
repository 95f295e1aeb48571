import Serverless.Model.InvocationState
import Serverless.Model.Rounding

/-!
# Backoff between its base and its cap

Both bounds of the policy are whole milliseconds, the digits that `backoff_delay_seconds` keeps. Base
delay and cap survive the rounding therefore, and what lies between them stays between them.
-/
namespace Serverless.Ledger

open Serverless.Library Serverless.Model

/-- The delay before jitter. -/
def baseDelay (p : RetryPolicy) (attemptNumber : Nat) : ℚ :=
  min p.maxBackoffSeconds (p.initialBackoffSeconds * 2 ^ (attemptNumber - 1))

/-- The argument of the jitter function. -/
def jitterCeiling (p : RetryPolicy) (attemptNumber : Nat) : ℚ :=
  min (baseDelay p attemptNumber * (1 / 4)) (p.maxBackoffSeconds - baseDelay p attemptNumber)

/-- Both bounds are non-negative multiples of a millisecond. -/
structure InMilliseconds (p : RetryPolicy) : Prop where
  initial : ∃ ms : Nat, p.initialBackoffSeconds = ms / 1000
  max : ∃ ms : Nat, p.maxBackoffSeconds = ms / 1000

/-- The jitter function returns something from zero to its argument. -/
def JitterWithin (jitter : ℚ → ℚ) : Prop := ∀ upper, 0 ≤ upper → 0 ≤ jitter upper ∧ jitter upper ≤ upper

variable {p : RetryPolicy}

theorem backoffDelaySeconds_eq (p : RetryPolicy) (n : Nat) :
    p.backoffDelaySeconds n = roundTo 3 (baseDelay p n + p.jitter (jitterCeiling p n)) := by
  unfold roundTo
  norm_num
  rfl

namespace InMilliseconds

theorem initial_nonneg (h : InMilliseconds p) : 0 ≤ p.initialBackoffSeconds := by
  obtain ⟨ms, hms⟩ := h.initial
  rw [hms]
  positivity

theorem max_nonneg (h : InMilliseconds p) : 0 ≤ p.maxBackoffSeconds := by
  obtain ⟨ms, hms⟩ := h.max
  rw [hms]
  positivity

theorem baseDelay_nonneg (h : InMilliseconds p) (n : Nat) : 0 ≤ baseDelay p n :=
  le_min h.max_nonneg (mul_nonneg h.initial_nonneg (by positivity))

theorem baseDelay_le_max (p : RetryPolicy) (n : Nat) : baseDelay p n ≤ p.maxBackoffSeconds :=
  min_le_left _ _

theorem baseDelay_mono (h : InMilliseconds p) {m n : Nat} (hmn : m ≤ n) : baseDelay p m ≤ baseDelay p n := by
  have hpow : (2 : ℚ) ^ (m - 1) ≤ 2 ^ (n - 1) := pow_le_pow_right₀ (by norm_num) (by omega)
  exact min_le_min_left _ (mul_le_mul_of_nonneg_left hpow h.initial_nonneg)

/-- The base delay is a whole number of milliseconds as well. -/
theorem baseDelay_milliseconds (h : InMilliseconds p) (n : Nat) :
    ∃ ms : Int, baseDelay p n * 10 ^ 3 = ms := by
  obtain ⟨initial, hinitial⟩ := h.initial
  obtain ⟨cap, hcap⟩ := h.max
  rcases min_choice p.maxBackoffSeconds (p.initialBackoffSeconds * 2 ^ (n - 1)) with hmin | hmin
  · refine ⟨cap, ?_⟩
    rw [baseDelay, hmin, hcap]
    push_cast
    ring
  · refine ⟨initial * 2 ^ (n - 1), ?_⟩
    rw [baseDelay, hmin, hinitial]
    push_cast
    ring

theorem jitterCeiling_nonneg (h : InMilliseconds p) (n : Nat) : 0 ≤ jitterCeiling p n := by
  have hbase := h.baseDelay_nonneg n
  have hcap := baseDelay_le_max p n
  exact le_min (by linarith) (by linarith)

theorem base_le_backoff (h : InMilliseconds p) (hj : JitterWithin p.jitter) (n : Nat) :
    baseDelay p n ≤ p.backoffDelaySeconds n := by
  obtain ⟨ms, hms⟩ := h.baseDelay_milliseconds n
  have hjitter := (hj _ (h.jitterCeiling_nonneg n)).1
  rw [backoffDelaySeconds_eq]
  calc baseDelay p n = roundTo 3 (baseDelay p n) := (roundTo_of_digits hms).symm
    _ ≤ roundTo 3 (baseDelay p n + p.jitter (jitterCeiling p n)) := roundTo_mono 3 (by linarith)

theorem backoff_le_max (h : InMilliseconds p) (hj : JitterWithin p.jitter) (n : Nat) :
    p.backoffDelaySeconds n ≤ p.maxBackoffSeconds := by
  obtain ⟨cap, hcap⟩ := h.max
  have hms : p.maxBackoffSeconds * 10 ^ 3 = (cap : Int) := by
    rw [hcap]
    push_cast
    ring
  have hjitter := (hj _ (h.jitterCeiling_nonneg n)).2
  have hceiling : jitterCeiling p n ≤ p.maxBackoffSeconds - baseDelay p n := min_le_right _ _
  rw [backoffDelaySeconds_eq]
  calc roundTo 3 (baseDelay p n + p.jitter (jitterCeiling p n)) ≤ roundTo 3 p.maxBackoffSeconds :=
        roundTo_mono 3 (by linarith)
    _ = p.maxBackoffSeconds := roundTo_of_digits hms

/-- The jitter is a quarter of the base delay at most, and half a millisecond may come from rounding. -/
theorem backoff_sub_base (h : InMilliseconds p) (hj : JitterWithin p.jitter) (n : Nat) :
    p.backoffDelaySeconds n - baseDelay p n ≤ baseDelay p n / 4 + 1 / 2000 := by
  have hjitter := (hj _ (h.jitterCeiling_nonneg n)).2
  have hceiling : jitterCeiling p n ≤ baseDelay p n * (1 / 4) := min_le_left _ _
  obtain ⟨-, hround⟩ := abs_le.mp (roundTo_near 3 (baseDelay p n + p.jitter (jitterCeiling p n)))
  rw [backoffDelaySeconds_eq]
  linarith

/-- Only the non-negative part of the jitter function is used. -/
theorem backoff_congr (h : InMilliseconds p) {jitter : ℚ → ℚ}
    (hj : ∀ upper, 0 ≤ upper → jitter upper = p.jitter upper) (n : Nat) :
    { p with jitter := jitter }.backoffDelaySeconds n = p.backoffDelaySeconds n := by
  rw [backoffDelaySeconds_eq, backoffDelaySeconds_eq]
  exact congrArg (fun j => roundTo 3 (baseDelay p n + j)) (hj _ (h.jitterCeiling_nonneg n))

end InMilliseconds

/-- A delay is a whole number of milliseconds, which `timedelta` does not round. -/
theorem timedelta_backoff (p : RetryPolicy) (n : Nat) :
    (timedelta (p.backoffDelaySeconds n) : ℚ) = p.backoffDelaySeconds n * 1000000 := by
  have hmicro : p.backoffDelaySeconds n * 1000000 =
      ((roundHalfEven ((baseDelay p n + p.jitter (jitterCeiling p n)) * 1000) * 1000 : Int) : ℚ) := by
    unfold RetryPolicy.backoffDelaySeconds
    push_cast
    unfold jitterCeiling baseDelay
    ring
  unfold timedelta
  rw [hmicro, roundHalfEven_intCast]

/-- The outbox row of a retry. -/
theorem markFinished_retry {db db' : Database} {invocationId attemptId : UUID}
    {held : Option InvocationAttempt} {result : RuntimeExecutionResult} {n : Nat} {dispatchId : UUID}
    {now : Time} {row : InvocationAttempt}
    (h : markFinished db invocationId attemptId held result (p.decide result n) dispatchId now = (db', .ok row))
    (hretry : (p.decide result n).shouldRetry = true) :
    ∃ d, db.dispatches.insert d = .ok db'.dispatches ∧ d.invocationId = invocationId ∧ d.createdAt = now ∧
      (d.availableAt : ℚ) = now + p.backoffDelaySeconds n * 1000000 := by
  cases markFinished_cases h with
  | retried i a dispatches _ _ _ _ _ _ hv =>
    refine ⟨_, hv, rfl, rfl, ?_⟩
    have hdelay : (p.decide result n).delaySeconds = p.backoffDelaySeconds n := if_pos hretry
    have hsum : (retryDispatch invocationId dispatchId a.attemptNumber (p.decide result n) now).availableAt =
        now + timedelta (p.backoffDelaySeconds n) := by
      rw [← hdelay]
      rfl
    rw [hsum, Int.cast_add, timedelta_backoff]
  | completed i a status _ _ _ _ _ hr =>
    rw [hretry] at hr
    cases hr

/-- **Backoff stays between its base and its cap.** -/
theorem backoff_bounded (p : RetryPolicy) (hms : InMilliseconds p) (hj : JitterWithin p.jitter) :
    (∀ n, baseDelay p n ≤ p.backoffDelaySeconds n ∧ p.backoffDelaySeconds n ≤ p.maxBackoffSeconds ∧
      p.backoffDelaySeconds n - baseDelay p n ≤ baseDelay p n / 4 + 1 / 2000) ∧
    (∀ n, p.backoffDelaySeconds n = roundTo 3 (baseDelay p n + p.jitter (jitterCeiling p n)) ∧
      0 ≤ jitterCeiling p n ∧ ∀ jitter : ℚ → ℚ, (∀ upper, 0 ≤ upper → jitter upper = p.jitter upper) →
        { p with jitter := jitter }.backoffDelaySeconds n = p.backoffDelaySeconds n) ∧
    (∀ m n, m ≤ n → baseDelay p m ≤ baseDelay p n) ∧
    ∀ (db db' : Database) (invocationId attemptId : UUID) (held : Option InvocationAttempt)
      (result : RuntimeExecutionResult) (n : Nat) (dispatchId : UUID) (now : Time) (row : InvocationAttempt),
      markFinished db invocationId attemptId held result (p.decide result n) dispatchId now = (db', .ok row) →
      (p.decide result n).shouldRetry = true →
      ∃ d, db.dispatches.insert d = .ok db'.dispatches ∧ d.invocationId = invocationId ∧ d.createdAt = now ∧
        (d.availableAt : ℚ) = now + p.backoffDelaySeconds n * 1000000 := by
  refine ⟨fun n => ?_, fun n => ?_, fun m n hmn => hms.baseDelay_mono hmn, ?_⟩
  · exact ⟨hms.base_le_backoff hj n, hms.backoff_le_max hj n, hms.backoff_sub_base hj n⟩
  · exact ⟨backoffDelaySeconds_eq p n, hms.jitterCeiling_nonneg n,
      fun jitter hjitter => hms.backoff_congr hjitter n⟩
  · intro db db' invocationId attemptId held result n dispatchId now row h hretry
    exact markFinished_retry h hretry

/-- The bounds of the worker, with half of the jitter that is allowed. -/
def halfJitter : RetryPolicy := { maxAttempts := 5, jitter := fun upper => upper / 2 }

/-- The fourth delay is jittered, the sixth is the cap. -/
theorem backoff_bounded_half_jitter :
    halfJitter.backoffDelaySeconds 4 = 9 ∧ halfJitter.backoffDelaySeconds 6 = 30 ∧
      (∀ n, halfJitter.backoffDelaySeconds n ≤ 30) := by
  have hms : InMilliseconds halfJitter := ⟨⟨1000, by norm_num [halfJitter]⟩, ⟨30000, by norm_num [halfJitter]⟩⟩
  have hj : JitterWithin halfJitter.jitter := by
    intro upper hupper
    show 0 ≤ upper / 2 ∧ upper / 2 ≤ upper
    constructor <;> linarith
  exact ⟨by decide +kernel, by decide +kernel, fun n => ((backoff_bounded halfJitter hms hj).1 n).2.1⟩

end Serverless.Ledger
