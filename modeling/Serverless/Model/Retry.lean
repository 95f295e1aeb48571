import Mathlib.Data.Rat.Floor
import Serverless.Model.Domain

/-!
# Execution results and the retry policy

`RuntimeExecutionResult` of `worker/app/runtime/docker_executor.py` and
`worker/app/services/retry.py`. Delays are exact rationals; the jitter source of a
policy is a parameter.
-/
namespace Serverless.Model

structure RuntimeExecutionResult where
  status : InvocationAttemptStatus
  resultInline : JsonValue := .null
  resultRef : Option String := none
  errorType : Option PyStr := none
  errorMessage : Option PyStr := none
  logsRef : Option String := none
  containerId : Option String := none
  exitCode : Option Int := none
  durationMs : Option Int := none

namespace RuntimeExecutionResult

def succeeded (result : JsonValue) (durationMs : Option Int := none)
    (logsRef containerId : Option String := none) (exitCode : Int := 0) :
    RuntimeExecutionResult where
  status := .succeeded
  resultInline := result
  logsRef := logsRef
  containerId := containerId
  exitCode := some exitCode
  durationMs := durationMs

def failed (errorType errorMessage : PyStr) (durationMs : Option Int := none)
    (logsRef containerId : Option String := none) (exitCode : Option Int := some 1) :
    RuntimeExecutionResult where
  status := .failed
  errorType := some errorType
  errorMessage := some errorMessage
  logsRef := logsRef
  containerId := containerId
  exitCode := exitCode
  durationMs := durationMs

def timedOut (errorMessage : PyStr) (durationMs : Option Int := none)
    (logsRef containerId : Option String := none) (exitCode : Option Int := none) :
    RuntimeExecutionResult where
  status := .timeout
  errorType := some "TimeoutError"
  errorMessage := some errorMessage
  logsRef := logsRef
  containerId := containerId
  exitCode := exitCode
  durationMs := durationMs

end RuntimeExecutionResult

/-- Round to the nearest integer, ties to even, as Python's `round` does. -/
def roundHalfEven (q : ℚ) : Int :=
  let below := q.floor
  let fraction := q - below
  if fraction < 1 / 2 then below
  else if 1 / 2 < fraction then below + 1
  else if below % 2 = 0 then below
  else below + 1

/-- `timedelta(seconds=q)`, which keeps whole microseconds. -/
def timedelta (q : ℚ) : Time := roundHalfEven (q * 1000000)

def retryableErrorTypes : List PyStr :=
  ["DockerException", "DockerRuntimeError", "FileNotFoundError", "InfrastructureError",
    "RuntimeInvocationNotFoundError", "RuntimeError", "WorkerLostError"]

def nonRetryableErrorTypes : List PyStr :=
  ["InvalidRuntimeOutput", "MemoryLimitExceeded", "TimeoutError", "ValueError"]

structure RetryDecision where
  shouldRetry : Bool
  attemptsRemaining : Nat
  delaySeconds : ℚ := 0

structure RetryPolicy where
  maxAttempts : Nat
  initialBackoffSeconds : ℚ := 1
  maxBackoffSeconds : ℚ := 30
  jitter : ℚ → ℚ

namespace RetryPolicy

def backoffDelaySeconds (p : RetryPolicy) (attemptNumber : Nat) : ℚ :=
  let baseDelay := min p.maxBackoffSeconds (p.initialBackoffSeconds * 2 ^ (attemptNumber - 1))
  let jitterCeiling := min (baseDelay * (1 / 4)) (p.maxBackoffSeconds - baseDelay)
  roundHalfEven ((baseDelay + p.jitter jitterCeiling) * 1000) / 1000

def isRetryableExecutionResult (result : RuntimeExecutionResult) : Bool :=
  if result.status ≠ .failed then false
  else match result.errorType with
    | none => false
    | some errorType =>
      if errorType ∈ nonRetryableErrorTypes then false
      else decide (errorType ∈ retryableErrorTypes)

/-- Natural subtraction is the source's `max(0, max_attempts - attempt_number)`. -/
def decide (p : RetryPolicy) (result : RuntimeExecutionResult) (attemptNumber : Nat) :
    RetryDecision :=
  let attemptsRemaining := p.maxAttempts - attemptNumber
  let shouldRetry := Decidable.decide (0 < attemptsRemaining) && isRetryableExecutionResult result
  { shouldRetry := shouldRetry
    attemptsRemaining := attemptsRemaining
    delaySeconds := if shouldRetry then p.backoffDelaySeconds attemptNumber else 0 }

/-- A retry is only ordered below the limit, and only for a failed result. -/
theorem decide_shouldRetry {p : RetryPolicy} {result : RuntimeExecutionResult} {n : Nat}
    (h : (p.decide result n).shouldRetry = true) : n < p.maxAttempts ∧ result.status = .failed := by
  simp only [decide, Bool.and_eq_true, decide_eq_true_eq] at h
  obtain ⟨hn, hr⟩ := h
  refine ⟨by omega, ?_⟩
  by_contra hs
  simp [isRetryableExecutionResult, hs] at hr

end RetryPolicy

end Serverless.Model
