import Mathlib.Data.List.Dedup
import Serverless.Library.Groups
import Serverless.Library.Results
import Serverless.Model.Scaling

/-!
# The verdict of the scaling audit

When the audit accepts its reports, they all have the same size; what it compares are the successes
and the invocations of all of them, however they are spread over the topologies.
-/
namespace Serverless.Benchmarks

open Serverless.Library Serverless.Model Serverless.Model.Benchmark

theorem require_eq_ok {ok : Bool} {e : ScalingError} {u : Unit} (h : require ok e = .ok u) : ok = true := by
  unfold require at h
  split at h
  · rename_i hok
    exact hok
  · cases h

/-- A report that is accepted with a size has that many invocations in its summary. -/
theorem validateReport_total {file : ReportFile} {workers n : Nat} {u : Unit}
    (h : validateReport file workers (some n) = .ok u) : file.report.summary.totalInvocations = n := by
  obtain ⟨_, -, h⟩ := bind_eq_ok h
  obtain ⟨_, -, h⟩ := bind_eq_ok h
  obtain ⟨_, -, h⟩ := bind_eq_ok h
  obtain ⟨_, -, h⟩ := bind_eq_ok h
  obtain ⟨_, hsize, h⟩ := bind_eq_ok h
  obtain ⟨_, -, h⟩ := bind_eq_ok h
  obtain ⟨_, htotal, -⟩ := bind_eq_ok h
  have hsize' := require_eq_ok hsize
  have htotal' := require_eq_ok htotal
  simp only [Option.all_some, decide_eq_true_eq] at hsize' htotal'
  exact htotal'.trans hsize'

theorem loadRuns_files {files : List ReportFile} {records : List (Nat × ReportFile)}
    (h : loadRuns files = .ok records) : records.map (·.2) = files := by
  refine mapM_eq_ok (fun file record hrecord => ?_) h
  obtain ⟨_, -, hrecord⟩ := bind_eq_ok hrecord
  obtain ⟨_, -, hrecord⟩ := bind_eq_ok hrecord
  cases hrecord
  rfl

/-- The worker counts of the measured reports, as `sorted` lists them. -/
def topologies (records : List (Nat × ReportFile)) : List Nat :=
  (records.map (·.1)).dedup.insertionSort (· ≤ ·)

/-- What an accepted set of reports is turned into. -/
theorem aggregateScalingReports_ok {runFiles warmupFiles : List ReportFile} {fresh : Bool}
    {r : ScalingResult} (h : aggregateScalingReports runFiles warmupFiles fresh = .ok r) :
    ∃ records measured, ∃ warmups : List (Nat × ReportFile), records.map (·.2) = runFiles ∧
      (∀ record ∈ records, record.2.report.summary.totalInvocations = measured) ∧
      r.workers = (topologies records).map (fun workers => workerResult measured workers
        ((records.filter fun record => record.1 = workers).map (·.2)) (warmups.lookup workers)) ∧
      r.totalMeasured = (r.workers.map (·.measuredInvocations)).sum ∧
      r.totalSucceeded = (r.workers.map fun w => (w.statusCounts.lookup "SUCCEEDED").getD 0).sum ∧
      r.allRunsSucceeded = decide (r.totalSucceeded = r.totalMeasured) := by
  obtain ⟨_, -, h⟩ := bind_eq_ok h
  obtain ⟨records, hload, h⟩ := bind_eq_ok h
  obtain ⟨_, -, h⟩ := bind_eq_ok h
  obtain ⟨_, -, h⟩ := bind_eq_ok h
  obtain ⟨measured, -, h⟩ := bind_eq_ok h
  obtain ⟨_, -, h⟩ := bind_eq_ok h
  obtain ⟨_, hvalid, h⟩ := bind_eq_ok h
  obtain ⟨methodology, -, h⟩ := bind_eq_ok h
  obtain ⟨warmups, -, h⟩ := bind_eq_ok h
  obtain ⟨_, -, h⟩ := bind_eq_ok h
  obtain ⟨_, -, h⟩ := bind_eq_ok h
  obtain ⟨_, -, h⟩ := bind_eq_ok h
  obtain ⟨_, -, h⟩ := bind_eq_ok h
  cases h
  exact ⟨records, measured, warmups, loadRuns_files hload,
    fun record hrecord => validateReport_total (forM_eq_ok hvalid record hrecord), rfl, rfl, rfl, rfl⟩

/-! ## Adding up -/

/-- The successful invocations of a summary. -/
def succeededIn (summary : Summary) : Nat := totalFor summary.statusCounts "SUCCEEDED"

theorem nodup_sorted_dedup {κ : Type} [DecidableEq κ] (le : κ → κ → Prop) [DecidableRel le] (l : List κ) :
    (l.dedup.insertionSort le).Nodup :=
  (List.perm_insertionSort le l.dedup).nodup_iff.mpr l.nodup_dedup

theorem mem_sorted_dedup {κ : Type} [DecidableEq κ] {le : κ → κ → Prop} [DecidableRel le] {l : List κ}
    {k : κ} : k ∈ l.dedup.insertionSort le ↔ k ∈ l := by
  rw [List.mem_insertionSort, List.mem_dedup]

/-- The counts of several summaries, looked up. -/
theorem lookup_addCounts (summaries : List Summary) (status : String) :
    ((addCounts summaries).lookup status).getD 0 =
      (summaries.map fun summary => totalFor summary.statusCounts status).sum := by
  rw [← totalFor_flatMap]
  have hkeys : (addCounts summaries).map (·.1) =
      ((summaries.flatMap (·.statusCounts)).map (·.1)).dedup.insertionSort (· ≤ ·) := by
    unfold addCounts
    rw [List.map_map]
    exact List.map_id _
  have hsorted := nodup_sorted_dedup (· ≤ ·) ((summaries.flatMap (·.statusCounts)).map (·.1))
  have hnodup : ((addCounts summaries).map (·.1)).Nodup := by
    rw [hkeys]
    exact hsorted
  rw [lookup_getD hnodup]
  refine totalFor_keyed hsorted (totalFor (summaries.flatMap (·.statusCounts))) fun hnot => ?_
  refine totalFor_of_not_mem fun hmem => hnot ?_
  exact mem_sorted_dedup.mpr hmem

/-- A sum over the reports of one topology. -/
theorem sum_of_topology (records : List (Nat × ReportFile)) (g : ReportFile → Nat) (workers : Nat) :
    (((records.filter fun record => record.1 = workers).map (·.2)).map g).sum =
      totalFor (records.map fun record => (record.1, g record.2)) workers := by
  unfold totalFor
  rw [List.filter_map, List.map_map, List.map_map]
  rfl

theorem sum_of_topologies (records : List (Nat × ReportFile)) (g : ReportFile → Nat) :
    ((topologies records).map fun workers =>
      (((records.filter fun record => record.1 = workers).map (·.2)).map g).sum).sum =
      ((records.map (·.2)).map g).sum := by
  simp only [sum_of_topology]
  rw [topologies, sum_totalFor (nodup_sorted_dedup _ _), List.map_map, List.map_map]
  · rfl
  · intro count hcount
    obtain ⟨record, hrecord, rfl⟩ := List.mem_map.mp hcount
    exact mem_sorted_dedup.mpr (List.mem_map_of_mem hrecord)

/-- **The scaling audit compares successes with invocations, report by report.** -/
theorem scaling_verdict {runFiles warmupFiles : List ReportFile} {fresh : Bool} {r : ScalingResult}
    (h : aggregateScalingReports runFiles warmupFiles fresh = .ok r)
    (hle : ∀ file ∈ runFiles, succeededIn file.report.summary ≤ file.report.summary.totalInvocations) :
    r.allRunsSucceeded = true ↔
      ∀ file ∈ runFiles, succeededIn file.report.summary = file.report.summary.totalInvocations := by
  obtain ⟨records, measured, warmups, hfiles, hsize, hworkers, hmeasured, hsucceeded, hverdict⟩ :=
    aggregateScalingReports_ok h
  have hsize' : ∀ file ∈ runFiles, file.report.summary.totalInvocations = measured := by
    intro file hfile
    rw [← hfiles] at hfile
    obtain ⟨record, hrecord, rfl⟩ := List.mem_map.mp hfile
    exact hsize record hrecord
  have htotal : r.totalMeasured = runFiles.length * measured := by
    rw [hmeasured, hworkers, List.map_map, ← hfiles]
    have hsum := sum_of_topologies records fun _ => measured
    simp only [List.map_const', List.sum_replicate_nat] at hsum
    exact hsum
  have hsum : r.totalSucceeded = (runFiles.map fun file => succeededIn file.report.summary).sum := by
    rw [hsucceeded, hworkers, List.map_map, ← hfiles,
      ← sum_of_topologies records fun file => succeededIn file.report.summary]
    refine congrArg List.sum (List.map_congr_left fun workers _ => ?_)
    show ((addCounts _).lookup "SUCCEEDED").getD 0 = _
    rw [lookup_addCounts, List.map_map]
    rfl
  rw [hverdict, decide_eq_true_eq, hsum, htotal,
    sum_eq_length_mul fun file hfile => (hle file hfile).trans (hsize' file hfile).le]
  exact forall₂_congr fun file hfile => by rw [hsize' file hfile]

end Serverless.Benchmarks
