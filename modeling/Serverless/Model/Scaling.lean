import Serverless.Model.Benchmarks

/-!
# The scaling audit

`aggregate_scaling_reports` of `benchmarks/aggregate_scaling_results.py` on files that have been
loaded, listed in the order of their paths. Paths are returned as they came.
-/
namespace Serverless.Model.Benchmark

/-- Raise unless a condition holds. -/
def require (ok : Bool) (e : ScalingError) : Except ScalingError Unit := if ok then .ok () else .error e

def validateReport (file : ReportFile) (expectedWorkers : Nat) (expectedInvocations : Option Nat) :
    Except ScalingError Unit := do
  let environment := file.report.environment
  let config := file.report.config
  let summary := file.report.summary
  require environment.gitWorktreeClean (.worktreeNotClean file.path)
  require (environment.activeWorkerCount = some expectedWorkers)
    (.activeWorkerCount file.path environment.activeWorkerCount expectedWorkers)
  require (environment.totalWorkerConcurrency.any fun total => expectedWorkers ≤ total)
    (.totalWorkerConcurrency file.path environment.totalWorkerConcurrency)
  require (config.workload = "noop") (.notNoop file.path)
  require (expectedInvocations.all fun expected => config.invocations = expected)
    (.invocations file.path config.invocations (expectedInvocations.getD 0))
  require (file.report.samples.length = config.invocations) (.sampleCount file.path)
  require (summary.totalInvocations = config.invocations) (.summaryTotal file.path)
  summaryMetrics.forM fun metric => require (summary.metric metric).isSome (.notNumeric file.path metric)

/-- `shared_value`; no file at all is a disagreement as well. -/
def sharedValue {α : Type} [DecidableEq α] (files : List ReportFile) (place : String)
    (get : BenchmarkReport → α) : Except ScalingError α :=
  match files with
  | [] => .error (.disagree place)
  | file :: rest =>
    if rest.all fun other => get other.report = get file.report then .ok (get file.report)
    else .error (.disagree place)

/-- The measured reports with their worker counts. -/
def loadRuns (files : List ReportFile) : Except ScalingError (List (Nat × ReportFile)) :=
  files.mapM fun file => do
    let workers ← runWorkerCount file
    validateReport file workers none
    pure (workers, file)

/-- The warm-up reports; `seen` are the worker counts of those before. -/
def loadWarmups (seen : List Nat) : List ReportFile → Except ScalingError (List (Nat × ReportFile))
  | [] => .ok []
  | file :: files => do
    let workers ← warmupWorkerCount file
    require (workers ∉ seen) (.duplicateWarmup workers)
    validateReport file workers none
    let rest ← loadWarmups (workers :: seen) files
    pure ((workers, file) :: rest)

/-- What all measured reports have in common. -/
structure Methodology where
  gitCommitSha : String
  runtimeImageId : Option String
  workload : String
  concurrency : Nat
  timeoutSeconds : Nat
  memoryLimitMb : Nat
  cpuLimit : ℚ

def sharedMethodology (files : List ReportFile) : Except ScalingError Methodology := do
  let gitCommitSha ← sharedValue files "environment.git_commit_sha" (·.environment.gitCommitSha)
  let runtimeImageId ← sharedValue files "environment.runtime_image_id" (·.environment.runtimeImageId)
  let workload ← sharedValue files "config.workload" (·.config.workload)
  let concurrency ← sharedValue files "config.concurrency" (·.config.concurrency)
  let timeoutSeconds ← sharedValue files "config.timeout_seconds" (·.config.timeoutSeconds)
  let memoryLimitMb ← sharedValue files "config.memory_limit_mb" (·.config.memoryLimitMb)
  let cpuLimit ← sharedValue files "config.cpu_limit" (·.config.cpuLimit)
  pure ⟨gitCommitSha, runtimeImageId, workload, concurrency, timeoutSeconds, memoryLimitMb, cpuLimit⟩

/-- The checks of the warm-up reports against the measured ones; the result is their size. -/
def checkWarmups (files : List ReportFile) (methodology : Methodology) : Except ScalingError Nat := do
  let warmupInvocations ← sharedValue files "config.invocations" (·.config.invocations)
  let warmupCommitSha ← sharedValue files "environment.git_commit_sha" (·.environment.gitCommitSha)
  require (warmupCommitSha = methodology.gitCommitSha) .warmupCommit
  require (0 < warmupInvocations) .warmupNotPositive
  let workload ← sharedValue files "config.workload" (·.config.workload)
  require (workload = methodology.workload) (.warmupConfig "workload")
  let concurrency ← sharedValue files "config.concurrency" (·.config.concurrency)
  require (concurrency = methodology.concurrency) (.warmupConfig "concurrency")
  let timeoutSeconds ← sharedValue files "config.timeout_seconds" (·.config.timeoutSeconds)
  require (timeoutSeconds = methodology.timeoutSeconds) (.warmupConfig "timeout_seconds")
  let memoryLimitMb ← sharedValue files "config.memory_limit_mb" (·.config.memoryLimitMb)
  require (memoryLimitMb = methodology.memoryLimitMb) (.warmupConfig "memory_limit_mb")
  let cpuLimit ← sharedValue files "config.cpu_limit" (·.config.cpuLimit)
  require (cpuLimit = methodology.cpuLimit) (.warmupConfig "cpu_limit")
  let warmupRuntimeImage ← sharedValue files "environment.runtime_image_id" (·.environment.runtimeImageId)
  require (warmupRuntimeImage = methodology.runtimeImageId) .warmupImage
  pure warmupInvocations

/-- The status counts of several summaries added up, sorted by status. -/
def addCounts (summaries : List Summary) : List (String × Nat) :=
  let counts := summaries.flatMap (·.statusCounts)
  ((counts.map (·.1)).dedup.insertionSort (· ≤ ·)).map fun status =>
    (status, ((counts.filter fun count => count.1 = status).map (·.2)).sum)

structure RunSummary where
  path : String
  generatedAt : String
  wallDurationSeconds : ℚ
  summary : Summary

structure WorkerResult where
  workerCount : Nat
  totalWorkerConcurrency : Option Nat
  repetitions : Nat
  measuredInvocations : Nat
  statusCounts : List (String × Nat)
  medianSummary : Metric → ℚ
  throughputMinimum : Option ℚ
  throughputMaximum : Option ℚ
  warmupPath : Option String
  runs : List RunSummary

def workerResult (measuredInvocations workers : Nat) (records : List ReportFile) (warmup : Option ReportFile) :
    WorkerResult :=
  let values (metric : Metric) := records.filterMap fun file => file.report.summary.metric metric
  let throughputs := values .throughputInvocationsPerSecond
  { workerCount := workers
    totalWorkerConcurrency := records.head?.bind (·.report.environment.totalWorkerConcurrency)
    repetitions := records.length
    measuredInvocations := records.length * measuredInvocations
    statusCounts := addCounts (records.map (·.report.summary))
    medianSummary := fun metric => roundTo 2 (median (values metric))
    throughputMinimum := throughputs.min?.map (roundTo 2)
    throughputMaximum := throughputs.max?.map (roundTo 2)
    warmupPath := warmup.map (·.path)
    runs := records.map fun file => ⟨file.path, file.report.generatedAt, file.report.wallDurationSeconds,
      file.report.summary⟩ }

structure SharedEnvironment where
  host : String
  operatingSystem : String
  architecture : String
  cpuModel : String
  logicalCpuCount : Option Nat
  memoryBytes : Option Nat
  dockerServerVersion : Option String
  executionMode : String

def sharedEnvironment (files : List ReportFile) : Except ScalingError SharedEnvironment := do
  let host ← sharedValue files "environment.host" (·.environment.host)
  let operatingSystem ← sharedValue files "environment.operating_system" (·.environment.operatingSystem)
  let architecture ← sharedValue files "environment.architecture" (·.environment.architecture)
  let cpuModel ← sharedValue files "environment.cpu_model" (·.environment.cpuModel)
  let logicalCpuCount ← sharedValue files "environment.logical_cpu_count" (·.environment.logicalCpuCount)
  let memoryBytes ← sharedValue files "environment.memory_bytes" (·.environment.memoryBytes)
  let dockerServerVersion ← sharedValue files "environment.docker_server_version"
    (·.environment.dockerServerVersion)
  let executionMode ← sharedValue files "environment.execution_mode" (·.environment.executionMode)
  pure ⟨host, operatingSystem, architecture, cpuModel, logicalCpuCount, memoryBytes, dockerServerVersion,
    executionMode⟩

structure ScalingResult where
  environment : SharedEnvironment
  methodology : Methodology
  freshStatePerTopology : Bool
  warmupInvocations : Nat
  measuredInvocations : Nat
  repetitions : Nat
  totalMeasured : Nat
  totalSucceeded : Nat
  allRunsSucceeded : Bool
  workers : List WorkerResult
  speedups : List (ℚ × ℚ)

/-- The speedup of every topology and its efficiency. -/
def speedups (workers : List WorkerResult) : Except ScalingError (List (ℚ × ℚ)) :=
  let throughput (w : WorkerResult) := w.medianSummary .throughputInvocationsPerSecond
  let baseline := (workers.head?.map throughput).getD 0
  if baseline = 0 then .error .zeroDivision
  else .ok (workers.map fun w =>
    let speedup := throughput w / baseline
    (roundTo 2 speedup, roundTo 2 (speedup / w.workerCount)))

def aggregateScalingReports (runFiles warmupFiles : List ReportFile) (freshStatePerTopology : Bool) :
    Except ScalingError ScalingResult := do
  require (!runFiles.isEmpty) .noReports
  let records ← loadRuns runFiles
  let workerCounts := (records.map (·.1)).dedup.insertionSort (· ≤ ·)
  let recordsOf (workers : Nat) := (records.filter fun record => record.1 = workers).map (·.2)
  require (workerCounts.head? = some 1) .noBaseline
  let repetitions := (workerCounts.map fun workers => (recordsOf workers).length).dedup
  require (repetitions.length = 1) .repetitions
  let files := records.map (·.2)
  let measuredInvocations ← sharedValue files "config.invocations" (·.config.invocations)
  require (0 < measuredInvocations) .measuredNotPositive
  records.forM fun record => validateReport record.2 record.1 (some measuredInvocations)
  let methodology ← sharedMethodology files
  let warmups ← loadWarmups [] warmupFiles
  require ((warmups.map (·.1)).insertionSort (· ≤ ·) = workerCounts) .warmupTopologies
  let warmupInvocations ← checkWarmups (warmups.map (·.2)) methodology
  let workers := workerCounts.map fun workers =>
    workerResult measuredInvocations workers (recordsOf workers) (warmups.lookup workers)
  let speedups ← speedups workers
  let environment ← sharedEnvironment files
  let totalMeasured := (workers.map (·.measuredInvocations)).sum
  let totalSucceeded := (workers.map fun w => (w.statusCounts.lookup "SUCCEEDED").getD 0).sum
  pure
    { environment := environment
      methodology := methodology
      freshStatePerTopology := freshStatePerTopology
      warmupInvocations := warmupInvocations
      measuredInvocations := measuredInvocations
      repetitions := repetitions.headD 0
      totalMeasured := totalMeasured
      totalSucceeded := totalSucceeded
      allRunsSucceeded := totalSucceeded = totalMeasured
      workers := workers
      speedups := speedups }

end Serverless.Model.Benchmark
