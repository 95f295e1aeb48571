import Mathlib.Data.String.Basic
import Serverless.Model.Metrics

/-!
# Benchmark runs and their audits

`summarize_samples` of `benchmarks/run_benchmark.py`, `aggregate_scenario` of
`benchmarks/run_release_suite.py` and `aggregate_scaling_reports` of
`benchmarks/aggregate_scaling_results.py`. Reports have the types that the runner gives them, numbers
are exact rationals, and the coefficient of variation, a square root, is left out.
-/
namespace Serverless.Model.Benchmark

/-- The fields of a sample that a summary is made of. -/
structure InvocationSample where
  status : String
  acceptedLatencyMs : Option ℚ := none
  endToEndLatencyMs : Option ℚ := none
  queueLatencyMs : Option ℚ := none
  executionLatencyMs : Option ℚ := none

/-- `NON_SUCCESS_STATUSES`. -/
def nonSuccessStatuses : List String := ["FAILED", "TIMEOUT", "CANCELED", "CLIENT_ERROR", "POLL_TIMEOUT"]

def metricValues (samples : List InvocationSample) (field : InvocationSample → Option ℚ) : List ℚ :=
  (samples.filterMap field).insertionSort (· ≤ ·)

def safeRate (numerator : Nat) (denominator : ℚ) : ℚ :=
  if denominator ≤ 0 then 0 else roundTo 2 (numerator / denominator)

def ratio (numerator denominator : Nat) : ℚ :=
  if denominator = 0 then 0 else roundTo 4 (numerator / denominator)

def average (values : List ℚ) : Option ℚ :=
  if values = [] then none else some (roundTo 2 (values.sum / values.length))

/-- `percentile` sorts by itself. -/
def percentile (values : List ℚ) (percentileValue : ℚ) : Option ℚ :=
  if values = [] then none
  else
    let index := (max 0 (⌈(values.length : ℚ) * percentileValue⌉ - 1)).toNat
    ((values.insertionSort (· ≤ ·))[index]?).map (roundTo 2)

/-- The numbers of a summary, `AGGREGATE_METRICS` and `SUMMARY_METRICS`. -/
inductive Metric where
  | throughputInvocationsPerSecond
  | successRate
  | errorRate
  | timeoutRate
  | p50LatencyMs
  | p95LatencyMs
  | p99LatencyMs
  | averageQueueLatencyMs
  | averageExecutionLatencyMs
  | averageAcceptLatencyMs
  deriving DecidableEq

def summaryMetrics : List Metric :=
  [.throughputInvocationsPerSecond, .successRate, .errorRate, .timeoutRate, .p50LatencyMs, .p95LatencyMs,
    .p99LatencyMs, .averageQueueLatencyMs, .averageExecutionLatencyMs, .averageAcceptLatencyMs]

structure Summary where
  totalInvocations : Nat
  statusCounts : List (String × Nat)
  metric : Metric → Option ℚ

/-- `statuses.get(status, 0)` of the counter. -/
def countStatus (samples : List InvocationSample) (status : String) : Nat :=
  samples.countP fun sample => sample.status = status

/-- `dict(sorted(statuses.items()))`. -/
def statusCounts (samples : List InvocationSample) : List (String × Nat) :=
  ((samples.map (·.status)).dedup.insertionSort (· ≤ ·)).map fun status => (status, countStatus samples status)

def summarizeSamples (samples : List InvocationSample) (wallDurationSeconds : ℚ) : Summary :=
  let total := samples.length
  let nonSuccess := (nonSuccessStatuses.map (countStatus samples)).sum
  let endToEndValues := metricValues samples (·.endToEndLatencyMs)
  { totalInvocations := total
    statusCounts := statusCounts samples
    metric := fun
      | .throughputInvocationsPerSecond => some (safeRate total wallDurationSeconds)
      | .successRate => some (ratio (countStatus samples "SUCCEEDED") total)
      | .errorRate => some (ratio nonSuccess total)
      | .timeoutRate => some (ratio (countStatus samples "TIMEOUT") total)
      | .p50LatencyMs => percentile endToEndValues (50 / 100)
      | .p95LatencyMs => percentile endToEndValues (95 / 100)
      | .p99LatencyMs => percentile endToEndValues (99 / 100)
      | .averageQueueLatencyMs => average (metricValues samples (·.queueLatencyMs))
      | .averageExecutionLatencyMs => average (metricValues samples (·.executionLatencyMs))
      | .averageAcceptLatencyMs => average (metricValues samples (·.acceptedLatencyMs)) }

/-- `BenchmarkConfig`, as far as the audits read it. -/
structure BenchmarkConfig where
  workload : String
  invocations : Nat
  concurrency : Nat
  timeoutSeconds : Nat
  memoryLimitMb : Nat
  cpuLimit : ℚ

/-- `collect_environment`, as far as the audits read it. -/
structure Environment where
  host : String
  operatingSystem : String
  architecture : String
  cpuModel : String
  logicalCpuCount : Option Nat
  memoryBytes : Option Nat
  dockerServerVersion : Option String
  runtimeImageId : Option String
  executionMode : String
  gitCommitSha : String
  gitWorktreeClean : Bool
  activeWorkerCount : Option Nat
  totalWorkerConcurrency : Option Nat

structure BenchmarkReport where
  generatedAt : String
  wallDurationSeconds : ℚ
  config : BenchmarkConfig
  summary : Summary
  samples : List InvocationSample
  environment : Environment

/-! ## The release suite -/

structure BenchmarkScenario where
  name : String
  workload : String
  invocations : Nat
  concurrency : Nat
  payload : JsonValue
  timeoutSeconds : Nat := 30
  memoryLimitMb : Nat := 256
  cpuLimit : ℚ := 1 / 2

/-- `statistics.median` of a list that is not empty. -/
def median (values : List ℚ) : ℚ :=
  let sorted := values.insertionSort (· ≤ ·)
  let half := sorted.length / 2
  if sorted.length % 2 = 1 then sorted.getD half 0
  else (sorted.getD (half - 1) 0 + sorted.getD half 0) / 2

structure ScenarioRun where
  generatedAt : String
  wallDurationSeconds : ℚ
  summary : Summary
  rawJsonPath : String

structure ScenarioResult where
  name : String
  scenario : BenchmarkScenario
  repetitions : Nat
  allRunsSucceeded : Bool
  medianSummary : Metric → Option ℚ
  runs : List ScenarioRun

/-- The only exception is that of `zip(..., strict=True)`. -/
def aggregateScenario (scenario : BenchmarkScenario) (reports : List BenchmarkReport) (rawPaths : List String) :
    Except String ScenarioResult :=
  let medianSummary (metric : Metric) :=
    let numericValues := reports.filterMap fun report => report.summary.metric metric
    if numericValues = [] then none else some (roundTo 2 (median numericValues))
  if rawPaths.length < reports.length then .error "zip() argument 2 is shorter than argument 1"
  else if reports.length < rawPaths.length then .error "zip() argument 2 is longer than argument 1"
  else .ok
    { name := scenario.name
      scenario := scenario
      repetitions := reports.length
      allRunsSucceeded := reports.all fun report => report.summary.metric .successRate = some 1
      medianSummary := medianSummary
      runs := reports.zipWith (fun report rawPath =>
        ⟨report.generatedAt, report.wallDurationSeconds, report.summary, rawPath⟩) rawPaths }

/-! ## The scaling suite -/

/-- A report file: its path, and the name of the file. -/
structure ReportFile where
  path : String
  name : String
  report : BenchmarkReport

inductive ScalingError where
  | noReports
  | unexpectedFilename (name : String)
  | worktreeNotClean (path : String)
  | activeWorkerCount (path : String) (found : Option Nat) (expected : Nat)
  | totalWorkerConcurrency (path : String) (found : Option Nat)
  | notNoop (path : String)
  | invocations (path : String) (found expected : Nat)
  | sampleCount (path : String)
  | summaryTotal (path : String)
  | notNumeric (path : String) (metric : Metric)
  | disagree (place : String)
  | noBaseline
  | repetitions
  | measuredNotPositive
  | duplicateWarmup (workers : Nat)
  | warmupTopologies
  | warmupCommit
  | warmupNotPositive
  | warmupConfig (field : String)
  | warmupImage
  | zeroDivision

/-- `\d+` and what follows it. -/
def matchNumber (cs : List Char) : Option (Nat × List Char) :=
  let (digits, rest) := cs.span fun c => decide ('0' ≤ c ∧ c ≤ '9')
  if digits = [] then none else some (Nat.ofDigitChars 10 digits 0, rest)

/-- `worker_count_from_path` with `RUN_FILE_PATTERN`. -/
def runWorkerCount (file : ReportFile) : Except ScalingError Nat :=
  match (file.name.toList.dropPrefix? "worker-".toList).bind matchNumber with
  | none => .error (.unexpectedFilename file.name)
  | some (workers, rest) =>
    if ((rest.dropPrefix? "-run-".toList).bind matchNumber).any fun run => run.2 = ".json".toList then
      .ok workers
    else .error (.unexpectedFilename file.name)

/-- `worker_count_from_path` with `WARMUP_FILE_PATTERN`. -/
def warmupWorkerCount (file : ReportFile) : Except ScalingError Nat :=
  match (file.name.toList.dropPrefix? "worker-".toList).bind matchNumber with
  | none => .error (.unexpectedFilename file.name)
  | some (workers, rest) =>
    if rest = "-warmup.json".toList then .ok workers else .error (.unexpectedFilename file.name)

end Serverless.Model.Benchmark
