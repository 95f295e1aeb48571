import Serverless.Benchmarks.ScalingVerdict
import Serverless.Model.Rounding

/-!
# Two audits of the same runs

The release audit looks at success rates that are rounded to four digits, the scaling audit at counts.
One failure in twenty thousand invocations disappears in the rounding, so the release audit reports
success where the scaling audit does not.
-/
namespace Serverless.Benchmarks

open Serverless.Library Serverless.Model Serverless.Model.Benchmark

/-! ## Summaries -/

def unsuccessful (samples : List InvocationSample) : Nat :=
  samples.countP fun sample => sample.status ≠ "SUCCEEDED"

theorem unsuccessful_eq_zero {samples : List InvocationSample} :
    unsuccessful samples = 0 ↔ ∀ sample ∈ samples, sample.status = "SUCCEEDED" := by
  simp [unsuccessful]

theorem countStatus_add_unsuccessful (samples : List InvocationSample) :
    countStatus samples "SUCCEEDED" + unsuccessful samples = samples.length := by
  have h := List.length_eq_countP_add_countP
    (fun sample : InvocationSample => decide (sample.status = "SUCCEEDED"))
    (l := samples)
  rw [h, countStatus, unsuccessful]
  simp only [decide_not, Bool.decide_eq_true]

/-- The counter of a summary has the successes. -/
theorem succeededIn_summarizeSamples (samples : List InvocationSample) (wall : ℚ) :
    succeededIn (summarizeSamples samples wall) = countStatus samples "SUCCEEDED" := by
  have hsorted := nodup_sorted_dedup (· ≤ ·) (samples.map (·.status))
  refine totalFor_keyed hsorted (countStatus samples) fun hnot =>
    List.countP_eq_zero.mpr fun sample hsample => ?_
  have hmem : sample.status ∈ samples.map (·.status) := List.mem_map_of_mem hsample
  intro hstatus
  rw [of_decide_eq_true hstatus] at hmem
  exact hnot (mem_sorted_dedup.mpr hmem)

/-- A rate rounds to one as long as one in twenty thousand fails at most. -/
theorem ratio_eq_one {succeeded failed : Nat} (h : 0 < succeeded + failed) :
    ratio succeeded (succeeded + failed) = 1 ↔ 20000 * failed ≤ succeeded + failed := by
  have htotal : (0 : ℚ) < (succeeded + failed : Nat) := by exact_mod_cast h
  have hgap : ((10000 : Int) : ℚ) - (succeeded : ℚ) / (succeeded + failed : Nat) * 10 ^ 4 =
      10000 * failed / (succeeded + failed : Nat) := by
    field_simp
    push_cast
    ring
  have hnonneg : (0 : ℚ) ≤ 10000 * failed / (succeeded + failed : Nat) := by positivity
  have hround : roundHalfEven ((succeeded : ℚ) / (succeeded + failed : Nat) * 10 ^ 4) = 10000 ↔
      10000 * (failed : ℚ) / (succeeded + failed : Nat) ≤ 1 / 2 := by
    rw [← abs_of_nonneg hnonneg, ← hgap, ← NearestEven.iff_of_even (by decide)]
    constructor
    · intro heq
      have hnearest := roundHalfEven_nearest ((succeeded : ℚ) / (succeeded + failed : Nat) * 10 ^ 4)
      rw [heq] at hnearest
      exact hnearest
    · intro hnearest
      exact (roundHalfEven_nearest _).unique hnearest
  have hunit : ratio succeeded (succeeded + failed) = 1 ↔
      roundHalfEven ((succeeded : ℚ) / (succeeded + failed : Nat) * 10 ^ 4) = 10000 := by
    unfold ratio roundTo
    rw [if_neg h.ne', div_eq_one_iff_eq (by norm_num)]
    norm_cast
  rw [hunit, hround, div_le_iff₀ htotal]
  constructor
  · intro hle
    have hscaled : (20000 : ℚ) * failed ≤ (succeeded + failed : Nat) := by linarith
    exact_mod_cast hscaled
  · intro hle
    have hscaled : (20000 : ℚ) * failed ≤ (succeeded + failed : Nat) := by exact_mod_cast hle
    linarith

/-! ## The verdicts -/

/-- `build_report` summarises the samples of the report. -/
def Summarized (report : BenchmarkReport) : Prop :=
  report.summary = summarizeSamples report.samples report.wallDurationSeconds

theorem successRate_eq_one {report : BenchmarkReport} (h : Summarized report) (hne : report.samples ≠ []) :
    report.summary.metric .successRate = some 1 ↔
      20000 * unsuccessful report.samples ≤ report.samples.length := by
  have hsum := countStatus_add_unsuccessful report.samples
  have hpos := List.length_pos_of_ne_nil hne
  have hrate : report.summary.metric .successRate =
      some (ratio (countStatus report.samples "SUCCEEDED") report.samples.length) := by
    rw [h]
    rfl
  rw [hrate, Option.some.injEq, ← hsum]
  exact ratio_eq_one (hsum ▸ hpos)

/-- What the release audit decides. -/
theorem aggregateScenario_ok (scenario : BenchmarkScenario) {reports : List BenchmarkReport}
    {rawPaths : List String} (hlen : rawPaths.length = reports.length)
    (hruns : ∀ report ∈ reports, Summarized report ∧ report.samples ≠ []) :
    ∃ result, aggregateScenario scenario reports rawPaths = .ok result ∧
      (result.allRunsSucceeded = true ↔
        ∀ report ∈ reports, 20000 * unsuccessful report.samples ≤ report.samples.length) := by
  unfold aggregateScenario
  rw [if_neg (by omega), if_neg (by omega)]
  refine ⟨_, rfl, ?_⟩
  rw [List.all_eq_true]
  refine forall₂_congr fun report hreport => ?_
  rw [decide_eq_true_eq, successRate_eq_one (hruns report hreport).1 (hruns report hreport).2]

/-- What the scaling audit decides about the same summaries. -/
theorem scaling_verdict_samples {reports : List BenchmarkReport}
    (hruns : ∀ report ∈ reports, Summarized report ∧ report.samples ≠ [])
    {runFiles warmupFiles : List ReportFile}
    (hsame : (runFiles.map (·.report.summary)).Perm (reports.map (·.summary))) {fresh : Bool}
    {scaling : ScalingResult} (h : aggregateScalingReports runFiles warmupFiles fresh = .ok scaling) :
    scaling.allRunsSucceeded = true ↔ ∀ report ∈ reports, unsuccessful report.samples = 0 := by
  have hcounts : ∀ report ∈ reports, succeededIn report.summary + unsuccessful report.samples =
      report.summary.totalInvocations := by
    intro report hreport
    rw [(hruns report hreport).1, succeededIn_summarizeSamples]
    exact countStatus_add_unsuccessful report.samples
  have horigin : ∀ file ∈ runFiles, ∃ report ∈ reports, report.summary = file.report.summary := by
    intro file hfile
    exact List.mem_map.mp (hsame.subset (List.mem_map_of_mem hfile))
  rw [scaling_verdict h]
  · constructor
    · intro hall report hreport
      obtain ⟨file, hfile, heq⟩ := List.mem_map.mp (hsame.symm.subset (List.mem_map_of_mem hreport))
      have hequal := hall file hfile
      have hcount := hcounts report hreport
      rw [heq] at hequal
      omega
    · intro hall file hfile
      obtain ⟨report, hreport, heq⟩ := horigin file hfile
      have hcount := hcounts report hreport
      rw [hall report hreport, heq] at hcount
      exact hcount
  · intro file hfile
    obtain ⟨report, hreport, heq⟩ := horigin file hfile
    have hcount := hcounts report hreport
    rw [heq] at hcount
    omega

/-- The release audit says what is true of the samples. -/
def ReleaseVerdictTrue (reports : List BenchmarkReport) : Prop :=
  ∀ (scenario : BenchmarkScenario) (rawPaths : List String), rawPaths.length = reports.length →
    ∃ result, aggregateScenario scenario reports rawPaths = .ok result ∧
      (result.allRunsSucceeded = true ↔
        ∀ report ∈ reports, ∀ sample ∈ report.samples, sample.status = "SUCCEEDED")

/-- The scaling audit of the same summaries, if it accepts them, says the same. -/
def AuditsAgree (reports : List BenchmarkReport) : Prop :=
  ∀ (scenario : BenchmarkScenario) (rawPaths : List String) (result : ScenarioResult),
    aggregateScenario scenario reports rawPaths = .ok result →
    ∀ (runFiles warmupFiles : List ReportFile) (fresh : Bool) (scaling : ScalingResult),
      (runFiles.map (·.report.summary)).Perm (reports.map (·.summary)) →
      aggregateScalingReports runFiles warmupFiles fresh = .ok scaling →
      scaling.allRunsSucceeded = result.allRunsSucceeded

theorem rawPaths_length {scenario : BenchmarkScenario} {reports : List BenchmarkReport}
    {rawPaths : List String} {result : ScenarioResult}
    (h : aggregateScenario scenario reports rawPaths = .ok result) : rawPaths.length = reports.length := by
  unfold aggregateScenario at h
  dsimp only at h
  split at h
  · cases h
  · split at h
    · cases h
    · omega

/-- The first of `RELEASE_SCENARIOS`. -/
def noopScenario : BenchmarkScenario :=
  { name := "noop-100x10", workload := "noop", invocations := 100, concurrency := 10, payload := .dict [] }

/-- **When both audits give the true verdict**: nothing has failed, or in some run more than one
sample in twenty thousand has. -/
theorem audits_true_iff {reports : List BenchmarkReport}
    (hruns : ∀ report ∈ reports, Summarized report ∧ report.samples ≠ []) :
    ReleaseVerdictTrue reports ∧ AuditsAgree reports ↔
      (∀ report ∈ reports, unsuccessful report.samples = 0) ∨
        ∃ report ∈ reports, report.samples.length < 20000 * unsuccessful report.samples := by
  have htruth : (∀ report ∈ reports, ∀ sample ∈ report.samples, sample.status = "SUCCEEDED") ↔
      ∀ report ∈ reports, unsuccessful report.samples = 0 :=
    forall₂_congr fun report _ => unsuccessful_eq_zero.symm
  have hexact : ((∀ report ∈ reports, 20000 * unsuccessful report.samples ≤ report.samples.length) ↔
      ∀ report ∈ reports, unsuccessful report.samples = 0) ↔
      (∀ report ∈ reports, unsuccessful report.samples = 0) ∨
        ∃ report ∈ reports, report.samples.length < 20000 * unsuccessful report.samples := by
    constructor
    · intro hiff
      by_cases hall : ∀ report ∈ reports, unsuccessful report.samples = 0
      · exact .inl hall
      · refine .inr ?_
        by_contra hnone
        simp only [not_exists, not_and, not_lt] at hnone
        exact hall (hiff.mp hnone)
    · rintro (hall | ⟨report, hreport, hmany⟩)
      · exact ⟨fun _ => hall, fun _ report hreport => by rw [hall report hreport]; omega⟩
      · constructor
        · intro hfew
          have hle := hfew report hreport
          omega
        · intro hall
          have hzero := hall report hreport
          omega
  rw [← hexact]
  constructor
  · rintro ⟨hrelease, -⟩
    have hlen : (reports.map fun _ => "").length = reports.length := List.length_map _
    obtain ⟨result, hresult, hverdict⟩ := hrelease noopScenario _ hlen
    obtain ⟨result', hresult', hrates⟩ := aggregateScenario_ok noopScenario hlen hruns
    rw [hresult] at hresult'
    cases hresult'
    exact hrates.symm.trans (hverdict.trans htruth)
  · intro hiff
    refine ⟨fun scenario rawPaths hlen => ?_, fun scenario rawPaths result hresult runFiles warmupFiles fresh
      scaling hsame hscaling => ?_⟩
    · obtain ⟨result, hresult, hrates⟩ := aggregateScenario_ok scenario hlen hruns
      exact ⟨result, hresult, hrates.trans (hiff.trans htruth.symm)⟩
    · obtain ⟨result', hresult', hrates⟩ := aggregateScenario_ok scenario (rawPaths_length hresult) hruns
      rw [hresult] at hresult'
      cases hresult'
      have hscaled := scaling_verdict_samples hruns hsame hscaling
      exact Bool.eq_iff_iff.mpr (hscaled.trans (hiff.symm.trans hrates.symm))

/-! ## Two runs -/

/-- A run of one worker in a clean worktree. -/
def demoReport (samples : List InvocationSample) : BenchmarkReport where
  generatedAt := "2026-07-20T00:00:00Z"
  wallDurationSeconds := 10
  config := { workload := "noop", invocations := samples.length, concurrency := 10, timeoutSeconds := 30,
              memoryLimitMb := 256, cpuLimit := 1 / 2 }
  summary := summarizeSamples samples 10
  samples := samples
  environment :=
    { host := "benchmark-host", operatingSystem := "Linux", architecture := "x86_64", cpuModel := "Test CPU"
      logicalCpuCount := some 8, memoryBytes := some 16000000000, dockerServerVersion := some "29.0.0"
      runtimeImageId := some "sha256:test", executionMode := "cold container per invocation"
      gitCommitSha := "abc123", gitWorktreeClean := true, activeWorkerCount := some 1
      totalWorkerConcurrency := some 2 }

def sampleOf (status : String) : InvocationSample := ⟨status, some 5, some 100, some 20, some 60⟩

theorem summarized_demoReport (samples : List InvocationSample) : Summarized (demoReport samples) := rfl

/-- Twenty thousand invocations, of which the last fails. -/
def oneFailure : List InvocationSample := List.replicate 19999 (sampleOf "SUCCEEDED") ++ [sampleOf "FAILED"]

/-- A run that has lost an invocation passes the release audit. -/
theorem release_hides_failure :
    (∃ result, aggregateScenario noopScenario [demoReport oneFailure] [""] = .ok result ∧
      result.allRunsSucceeded = true ∧ ∃ sample ∈ oneFailure, sample.status = "FAILED") ∧
    ¬ ∀ reports, (∀ report ∈ reports, Summarized report ∧ report.samples ≠ []) →
      ReleaseVerdictTrue reports ∧ AuditsAgree reports := by
  have hfailed : unsuccessful oneFailure = 1 := by
    unfold unsuccessful oneFailure
    rw [List.countP_append, List.countP_replicate]
    decide
  have hlength : oneFailure.length = 20000 := by
    unfold oneFailure
    rw [List.length_append, List.length_replicate]
    rfl
  have hlost : sampleOf "FAILED" ∈ oneFailure := List.mem_append_right _ (List.mem_singleton_self _)
  have hruns : ∀ report ∈ [demoReport oneFailure], Summarized report ∧ report.samples ≠ [] := by
    intro report hreport
    obtain rfl := List.mem_singleton.mp hreport
    exact ⟨summarized_demoReport oneFailure, List.ne_nil_of_mem hlost⟩
  have hlen : [""].length = [demoReport oneFailure].length := rfl
  obtain ⟨result, hresult, hrates⟩ := aggregateScenario_ok noopScenario hlen hruns
  have hpassed : result.allRunsSucceeded = true := by
    refine hrates.mpr fun report hreport => ?_
    obtain rfl := List.mem_singleton.mp hreport
    have hsamples : (demoReport oneFailure).samples = oneFailure := rfl
    rw [hsamples, hfailed, hlength]
  refine ⟨⟨result, hresult, hpassed, _, hlost, rfl⟩, fun h => ?_⟩
  obtain ⟨result', hresult', hverdict⟩ := (h _ hruns).1 noopScenario [""] rfl
  rw [hresult] at hresult'
  cases hresult'
  have hstatus := hverdict.mp hpassed _ (List.mem_singleton_self _) _ hlost
  exact absurd hstatus (by decide)

def halfFailed : List InvocationSample := [sampleOf "SUCCEEDED", sampleOf "TIMEOUT"]

/-- One failure in two is seen by both audits, and the scaling audit accepts such reports. -/
theorem audits_true_iff_half :
    ReleaseVerdictTrue [demoReport halfFailed] ∧ AuditsAgree [demoReport halfFailed] ∧
    (aggregateScalingReports [⟨"results/worker-1-run-1.json", "worker-1-run-1.json", demoReport halfFailed⟩]
      [⟨"results/worker-1-warmup.json", "worker-1-warmup.json", demoReport halfFailed⟩]
      true).toOption.map (·.allRunsSucceeded) = some false := by
  have hruns : ∀ report ∈ [demoReport halfFailed], Summarized report ∧ report.samples ≠ [] := by
    intro report hreport
    obtain rfl := List.mem_singleton.mp hreport
    exact ⟨summarized_demoReport halfFailed, List.cons_ne_nil _ _⟩
  obtain ⟨hrelease, hagree⟩ := (audits_true_iff hruns).mpr (.inr ⟨_, List.mem_singleton_self _, by decide⟩)
  exact ⟨hrelease, hagree, by decide +kernel⟩

end Serverless.Benchmarks
