import Mathlib.Data.List.Sort
import Mathlib.Order.Defs.LinearOrder
import Mathlib.Data.Rat.Floor
import Serverless.Model.InvocationState

/-!
# Dashboard metrics

`PlatformMetricsService` of `backend/app/services/metrics.py`. Rates, averages and ranks are
exact rationals rounded half to even where the service computes with floats.
-/
namespace Serverless.Model

open Serverless.Library

structure InvocationMetricsSummary where
  total : Nat
  terminal : Nat
  queued : Nat
  running : Nat
  retrying : Nat
  succeeded : Nat
  failed : Nat
  timeout : Nat
  canceled : Nat
  successRate : ℚ
  errorRate : ℚ
  retryCount : Nat
  throughputPerMinute : Nat
  averageLatencyMs : Option ℚ
  p50LatencyMs : Option Int
  p95LatencyMs : Option Int
  p99LatencyMs : Option Int
  averageExecutionMs : Option ℚ
  p95ExecutionMs : Option Int

structure QueueMetricsSummary where
  depth : Nat
  oldestAgeSeconds : Option Int
  pendingDispatches : Nat
  oldestDispatchAgeSeconds : Option Int

structure WorkerMetricsSummary where
  total : Nat
  active : Nat
  stale : Nat
  offline : Nat
  activeInvocations : Nat

structure MetricsSummary where
  invocations : InvocationMetricsSummary
  queue : QueueMetricsSummary
  workers : WorkerMetricsSummary

/-- `round(value, digits)`. -/
def roundTo (digits : Nat) (value : ℚ) : ℚ := roundHalfEven (value * 10 ^ digits) / 10 ^ digits

/-- `average`. -/
def average (values : List Int) : Option ℚ :=
  if values = [] then none else some (roundTo 2 (values.sum / values.length))

/-- `percentile`: the nearest rank in a sorted list. -/
def percentile (values : List Int) (p : ℚ) : Option Int :=
  if values = [] then none else values[(max 0 (⌈(values.length : ℚ) * p⌉ - 1)).toNat]?

/-- `age_seconds`. -/
def ageSeconds (value : Option Time) (now : Time) : Option Int :=
  value.map fun v => max 0 ((now - v) / 1000000)

/-- `is_stale_worker`. -/
def isStaleWorker (w : Worker) (now : Time) (staleAfterSeconds : Nat) : Bool :=
  if w.status = .offline then false else w.lastHeartbeat < now - seconds staleAfterSeconds

namespace Database

variable (db : Database) (ownerId : UUID)

/-- The invocations of an owner, in table order. -/
def ownerInvocations : List Invocation := db.invocations.rows.filter fun i => i.ownerId = ownerId

/-- The attempts joined with the invocations of an owner. -/
def ownerAttempts : List InvocationAttempt :=
  db.attempts.rows.filter fun a => (db.invocations.get a.invocationId).any fun i => i.ownerId = ownerId

/-- The outbox rows joined with the invocations of an owner. -/
def ownerDispatches : List InvocationDispatch :=
  db.dispatches.rows.filter fun d => (db.invocations.get d.invocationId).any fun i => i.ownerId = ownerId

/-- `get_invocation_status_counts`. -/
def getInvocationStatusCounts (status : InvocationStatus) : Nat :=
  (db.ownerInvocations ownerId).countP fun i => i.status = status

/-- `get_execution_durations`. -/
def getExecutionDurations : List Int :=
  (((db.ownerAttempts ownerId).filter fun a => a.completedAt ≠ none ∧ a.durationMs ≠ none).filterMap
    (·.durationMs)).insertionSort (· ≤ ·)

/-- `get_invocation_durations`. -/
def getInvocationDurations : List Int :=
  ((db.ownerInvocations ownerId).filterMap fun i =>
    i.completedAt.map fun completedAt => durationMs i.queuedAt completedAt).insertionSort (· ≤ ·)

/-- `get_retry_count`. -/
def getRetryCount : Nat := ((db.ownerInvocations ownerId).map fun i => i.attemptCount - 1).sum

/-- `get_recent_throughput`. -/
def getRecentThroughput (now : Time) : Nat :=
  (db.ownerInvocations ownerId).countP fun i => i.completedAt.any fun t => now - seconds 60 ≤ t

/-- `get_invocation_summary`. -/
def getInvocationSummary (now : Time) : InvocationMetricsSummary :=
  let counts := db.getInvocationStatusCounts ownerId
  let total := counts .queued + counts .running + counts .retrying + counts .succeeded +
    counts .failed + counts .timeout + counts .canceled
  let succeeded := counts .succeeded
  let errors := counts .failed + counts .timeout + counts .canceled
  let terminal := succeeded + errors
  let executionDurations := db.getExecutionDurations ownerId
  let invocationDurations := db.getInvocationDurations ownerId
  { total := total
    terminal := terminal
    queued := counts .queued
    running := counts .running
    retrying := counts .retrying
    succeeded := succeeded
    failed := counts .failed
    timeout := counts .timeout
    canceled := counts .canceled
    successRate := if terminal = 0 then 0 else roundTo 4 (succeeded / terminal)
    errorRate := if terminal = 0 then 0 else roundTo 4 (errors / terminal)
    retryCount := db.getRetryCount ownerId
    throughputPerMinute := db.getRecentThroughput ownerId now
    averageLatencyMs := average invocationDurations
    p50LatencyMs := percentile invocationDurations (50 / 100)
    p95LatencyMs := percentile invocationDurations (95 / 100)
    p99LatencyMs := percentile invocationDurations (99 / 100)
    averageExecutionMs := average executionDurations
    p95ExecutionMs := percentile executionDurations (95 / 100) }

/-- `get_queue_summary`. -/
def getQueueSummary (now : Time) : QueueMetricsSummary :=
  let waiting := (db.ownerInvocations ownerId).filter fun i => i.status = .queued ∨ i.status = .retrying
  let pending := (db.ownerDispatches ownerId).filter fun d => d.publishedAt = none
  { depth := waiting.length
    oldestAgeSeconds := ageSeconds (waiting.map (·.queuedAt)).min? now
    pendingDispatches := pending.length
    oldestDispatchAgeSeconds := ageSeconds (pending.map (·.createdAt)).min? now }

/-- `get_worker_summary`, which reads the clock itself. -/
def getWorkerSummary (staleAfterSeconds : Nat) (now : Time) : WorkerMetricsSummary where
  total := db.workers.rows.length
  active := db.workers.rows.countP fun w => w.status ≠ .offline ∧ 0 < w.activeInvocations
  stale := (db.workers.rows.filter fun w => isStaleWorker w now staleAfterSeconds).length
  offline := db.workers.rows.countP fun w => w.status = .offline
  activeInvocations := (db.workers.rows.map (·.activeInvocations)).sum

/-- `get_summary` on one database state, with its two clock readings. -/
def getSummary (staleAfterSeconds : Nat) (now workersNow : Time) : MetricsSummary where
  invocations := db.getInvocationSummary ownerId now
  queue := db.getQueueSummary ownerId now
  workers := db.getWorkerSummary staleAfterSeconds workersNow

end Database

/-! ## Workers -/

/-- A worker as it is listed; its `created_at` and `updated_at` columns are not modelled. -/
structure WorkerRead where
  id : UUID
  hostname : String
  consumerName : Option String
  status : WorkerStatus
  lastHeartbeat : Time
  heartbeatAgeSeconds : Int
  stale : Bool
  activeInvocations : Nat
  maxConcurrency : Nat
  startedAt : Time
  deriving DecidableEq

def heartbeatAgeSeconds (w : Worker) (now : Time) : Int := max 0 ((now - w.lastHeartbeat).tdiv 1000000)

def workerReadModel (w : Worker) (now : Time) (staleAfterSeconds : Nat) : WorkerRead where
  id := w.id
  hostname := w.hostname
  consumerName := w.consumerName
  status := w.status
  lastHeartbeat := w.lastHeartbeat
  heartbeatAgeSeconds := heartbeatAgeSeconds w now
  stale := isStaleWorker w now staleAfterSeconds
  activeInvocations := w.activeInvocations
  maxConcurrency := w.maxConcurrency
  startedAt := w.startedAt

/-- The order in which the enumeration of the column is declared. -/
def WorkerStatus.position : WorkerStatus → Nat
  | .idle => 0
  | .running => 1
  | .draining => 2
  | .offline => 3

/-- `ORDER BY status, hostname, started_at`, with host names in the order of the database. -/
def WorkerListedBefore (collation : LinearOrder String) (v w : Worker) : Prop :=
  v.status.position < w.status.position ∨
    v.status.position = w.status.position ∧
      (collation.lt v.hostname w.hostname ∨ v.hostname = w.hostname ∧ v.startedAt ≤ w.startedAt)

instance (collation : LinearOrder String) : DecidableRel (WorkerListedBefore collation) := fun v w =>
  have := collation.toDecidableLT v.hostname w.hostname
  inferInstanceAs (Decidable (_ ∨ _ ∧ (_ ∨ _ ∧ _)))

/-- `list_workers`. -/
def Database.listWorkers (collation : LinearOrder String) (db : Database) (staleAfterSeconds : Nat)
    (now : Time) : List WorkerRead :=
  (db.workers.rows.insertionSort (WorkerListedBefore collation)).map fun w =>
    workerReadModel w now staleAfterSeconds

end Serverless.Model
