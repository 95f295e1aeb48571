import Serverless.Runtime.Protocol

/-!
# What is retried

The policy sees one name: the class of an exception that left `execute`, or what the
user's envelope gives as `error_type`. It orders a retry for the failures of the platform
and for no other exactly if the two kinds of names do not mix.
-/
namespace Serverless.Runtime

open Serverless.Library Serverless.Model

/-- The two lists have nothing in common, so the order of the two tests does not matter. -/
theorem isRetryable_iff {result : RuntimeExecutionResult} :
    RetryPolicy.isRetryableExecutionResult result = true ↔
      result.status = .failed ∧ ∃ name ∈ retryableErrorTypes, result.errorType = some name := by
  have hdisjoint : ∀ name ∈ retryableErrorTypes, name ∉ nonRetryableErrorTypes := by decide
  unfold RetryPolicy.isRetryableExecutionResult
  by_cases hs : result.status = .failed
  · rw [if_neg (not_not.mpr hs)]
    cases he : result.errorType with
    | none => simp
    | some name =>
      by_cases hn : name ∈ retryableErrorTypes
      · simp [hs, hn, hdisjoint name hn]
      · simp [hn]
  · simp [hs]

theorem shouldRetry_iff {policy : RetryPolicy} {n : Nat} (hn : n < policy.maxAttempts)
    {result : RuntimeExecutionResult} :
    (policy.decide result n).shouldRetry = true ↔
      result.status = .failed ∧ ∃ name ∈ retryableErrorTypes, result.errorType = some name := by
  have hleft : 0 < policy.maxAttempts - n := by omega
  simp only [RetryPolicy.decide, decide_eq_true hleft, Bool.true_and]
  exact isRetryable_iff

section

variable (x : DockerRuntimeExecutor) (db : Database) (host : Host) (task : InvocationTask)
  (now : Time)

/-- The container printed an object that says that the function failed. -/
def Reported (envelope : List (PyStr × JsonValue)) : Prop :=
  ∃ spec exitCode logsRef logFiles stdout,
    Captured x db host task now spec exitCode logsRef logFiles stdout ∧
      outputText stdout ≠ [] ∧ x.lib.loads (outputText stdout) = .value (.dict envelope) ∧
      envelope.lookup ↑"ok" = some (.bool false)

/-- The classes of the platform's exceptions are on the list of retryable names, and what user code
reports is not. -/
structure NamesApart : Prop where
  platform : ∀ e, Ends x db host task now (.error e) → e.className ∈ retryableErrorTypes
  user : ∀ envelope, Reported x db host task now envelope →
    x.lib.textOr envelope "error_type" "RuntimeError" ∉ retryableErrorTypes

end

section

variable {x : DockerRuntimeExecutor} {db : Database} {host : Host} {task : InvocationTask}
  {now : Time}

/-- What is recorded of a failure that the function reported. -/
theorem Reported.recorded {envelope : List (PyStr × JsonValue)}
    (h : Reported x db host task now envelope) :
    ∃ result files, x.execute db host task now = .ok (result, files) ∧ result.status = .failed ∧
      result.errorType = some (x.lib.textOr envelope "error_type" "RuntimeError") := by
  obtain ⟨spec, exitCode, logsRef, logFiles, stdout, hc, ht, hl, hok⟩ := h
  exact ⟨_, _, (Ends.parsed hc (.reported ht hl hok)).eq, rfl, rfl⟩

theorem planExecution_finished {result : RuntimeExecutionResult}
    (h : planExecution db task now = .finished result) :
    result = .timedOut "Invocation deadline exceeded before runtime start" (some 0) := by
  unfold planExecution at h
  dsimp only at h
  split at h
  · cases h
    rfl
  · split at h <;> cases h

theorem buildSuccessResult_status {invocationId : UUID} {v : JsonValue} {durationMs exitCode : Int}
    {logsRef containerId : Option String} {result : RuntimeExecutionResult} {files : List File}
    (h : x.buildSuccessResult host invocationId v durationMs logsRef containerId exitCode =
      .ok (result, files)) : result.status = .succeeded := by
  unfold DockerRuntimeExecutor.buildSuccessResult at h
  dsimp only at h
  split at h
  · cases h
    rfl
  · split at h
    · cases h
    · cases h
      rfl

/-- **Among the ends that are no exception, only a reported failure has a name of its own.** -/
theorem Ends.reported {result : RuntimeExecutionResult} {files : List File}
    (h : Ends x db host task now (.ok (result, files))) (hs : result.status = .failed) {name : PyStr}
    (hname : name ∈ retryableErrorTypes) (he : result.errorType = some name) :
    ∃ envelope, Reported x db host task now envelope ∧
      name = x.lib.textOr envelope "error_type" "RuntimeError" := by
  have hother : ∀ {other : PyStr}, result.errorType = some other →
      other ∉ retryableErrorTypes → False := by
    intro other ho hnot
    rw [he] at ho
    cases ho
    exact hnot hname
  cases h with
  | late hp =>
    rw [planExecution_finished hp] at hs
    cases hs
  | timeout hu h ht => cases hs
  | memory hstopped h hl => exact (hother rfl (by decide)).elim
  | @parsed spec exitCode logsRef logFiles files stdout _ hc h =>
    generalize hr : Except.ok (result, files) = r at h
    cases h with
    | empty ht =>
      cases hr
      exact (hother rfl (by decide)).elim
    | raised ht hl => cases hr
    | invalid ht hl =>
      cases hr
      exact (hother rfl (by decide)).elim
    | notObject ht hl hv =>
      cases hr
      exact (hother rfl (by decide)).elim
    | succeeded ht hl hok hexit =>
      rw [buildSuccessResult_status hr.symm] at hs
      cases hs
    | reported ht hl hok =>
      cases hr
      exact ⟨_, ⟨spec, exitCode, logsRef, logFiles, stdout, hc, ht, hl, hok⟩,
        (Option.some.inj he).symm⟩
    | exit ht hl htrue hfalse =>
      cases hr
      exact (hother rfl (by decide)).elim

/-- **A retry is ordered for the failures of the platform and for nothing else exactly if the names
do not mix.** -/
theorem retried_iff_platform {policy : RetryPolicy} {n : Nat} (hn : n < policy.maxAttempts) :
    ((policy.decide (recordedResult (x.execute db host task now)) n).shouldRetry = true ↔
      ∃ e, x.execute db host task now = .error e) ↔ NamesApart x db host task now := by
  rw [shouldRetry_iff hn]
  constructor
  · intro h
    constructor
    · intro e he
      obtain ⟨-, name, hname, ht⟩ := h.mpr ⟨e, he.eq⟩
      rw [he.eq] at ht
      cases ht
      exact hname
    · intro envelope hreported hname
      obtain ⟨result, files, hx, hs, ht⟩ := hreported.recorded
      rw [hx] at h
      obtain ⟨e, he⟩ := h.mp ⟨hs, _, hname, ht⟩
      cases he
  · intro h
    have hends := execute_ends x db host task now
    cases hx : x.execute db host task now with
    | error e =>
      rw [hx] at hends
      exact iff_of_true ⟨rfl, _, h.platform e hends, rfl⟩ ⟨e, rfl⟩
    | ok p =>
      rw [hx] at hends
      apply iff_of_false
      · rintro ⟨hs, name, hname, he⟩
        obtain ⟨envelope, hreported, rfl⟩ := hends.reported hs hname he
        exact h.user envelope hreported hname
      · rintro ⟨e, he⟩
        cases he

end

def demoInvocation : Invocation where
  id := 3
  ownerId := 7
  functionVersionId := 2
  idempotencyKey := none
  status := .running
  payloadInline := .null
  queuedAt := 0
  startedAt := some 0
  deadlineAt := seconds 30
  attemptCount := 1
  createdAt := 0

/-- One invocation of one function. -/
def demoDatabase : Database where
  functions := ⟨[⟨1, 7, "hello", none⟩], by decide, by decide⟩
  versions := ⟨[helloVersion 30], by decide, by decide⟩
  invocations := ⟨[demoInvocation], by decide, by decide⟩
  attempts := .empty
  dispatches := .empty
  workers := .empty

def demoTask : InvocationTask where
  streamMessageId := 1
  invocationId := 3
  functionVersionId := 2
  ownerId := 7
  attemptNumber := 1
  queuedAt := 0
  deadlineAt := seconds 30

def demoPolicy : RetryPolicy := { maxAttempts := 3, jitter := fun _ => 0 }

theorem demoPlan : ∃ spec, planExecution demoDatabase demoTask 0 = .container spec := by
  obtain ⟨spec, hspec⟩ := Option.isSome_iff_exists.mp
    (show (planExecution demoDatabase demoTask 0).spec.isSome = true by decide +kernel)
  exact ⟨spec, Plan.spec_some hspec⟩

/-- A host on which `containers.run` raises. -/
def refusingHost (className message : PyStr) : Host :=
  { demoHost with run := fun _ => .error (.of className message) }

theorem refusingHost_ends (className message : PyStr) :
    Ends demoExecutor demoDatabase (refusingHost className message) demoTask 0
      (.error (.of className message)) := by
  obtain ⟨spec, hplan⟩ := demoPlan
  exact .run hplan rfl rfl rfl rfl

/-- A container start that raises `DockerException` is retried, and the names are apart. -/
theorem retried_iff_platform_docker :
    (demoPolicy.decide (recordedResult (demoExecutor.execute demoDatabase
      (refusingHost "DockerException" "connection refused") demoTask 0)) 1).shouldRetry = true ∧
    NamesApart demoExecutor demoDatabase
      (refusingHost "DockerException" "connection refused") demoTask 0 := by
  have hends := refusingHost_ends "DockerException" "connection refused"
  have hretry : (demoPolicy.decide (recordedResult (demoExecutor.execute demoDatabase
      (refusingHost "DockerException" "connection refused") demoTask 0)) 1).shouldRetry =
        true := by
    rw [hends.eq]
    decide +kernel
  have hn : 1 < demoPolicy.maxAttempts := by decide
  exact ⟨hretry, (retried_iff_platform hn).mp (iff_of_true hretry ⟨_, hends.eq⟩)⟩

/-- A host on which a module has been run to its end. -/
def finishedHost (m : UserModule) : Host :=
  { demoHost with
    wait := fun _ => .exited (runnerMain noFloats m).exitCode
    stdout := .ok (Utf8.encode (runnerMain noFloats m).stdout) }

/-- A function that raises `RuntimeError("boom")`. -/
def raisingModule : UserModule := ⟨[], [], .raised "RuntimeError" "boom" []⟩

theorem finishedHost_captured (m : UserModule) :
    ∃ spec, Captured demoExecutor demoDatabase (finishedHost m) demoTask 0 spec
      (runnerMain noFloats m).exitCode none [] (Utf8.encode (runnerMain noFloats m).stdout) := by
  obtain ⟨spec, hplan⟩ := demoPlan
  exact ⟨spec, ⟨⟨⟨hplan, rfl, rfl, rfl, rfl⟩, rfl, [], rfl, rfl⟩, rfl, rfl⟩⟩

theorem raisingModule_reported : Reported demoExecutor demoDatabase (finishedHost raisingModule)
    demoTask 0 [("ok", .bool false), ("error_type", .str "RuntimeError"),
      ("error_message", .str "boom")] := by
  obtain ⟨spec, hc⟩ := finishedHost_captured raisingModule
  have hm : raisingModule.outcome.WellFormed noFloats :=
    ⟨by decide, CodePoint.joined_ofString _, CodePoint.joined_ofString _⟩
  exact ⟨spec, _, _, _, _, hc, outputText_ne_nil noFloats raisingModule,
    loads_outputText_ok demoExecutor_lib (loads_clean hm Text.blank_nil), rfl⟩

/-- **A `RuntimeError` of user code is retried, and an `APIError` of Docker is not.** -/
theorem retry_names_mixed :
    ¬ ((demoPolicy.decide (recordedResult (demoExecutor.execute demoDatabase
        (finishedHost raisingModule) demoTask 0)) 1).shouldRetry = true ↔
      ∃ e, demoExecutor.execute demoDatabase (finishedHost raisingModule) demoTask 0 = .error e) ∧
    ¬ ((demoPolicy.decide (recordedResult (demoExecutor.execute demoDatabase
        (refusingHost "APIError" "500 Server Error") demoTask 0)) 1).shouldRetry = true ↔
      ∃ e, demoExecutor.execute demoDatabase
        (refusingHost "APIError" "500 Server Error") demoTask 0 = .error e) := by
  have hn : 1 < demoPolicy.maxAttempts := by decide
  constructor
  · obtain ⟨result, files, hx, hs, ht⟩ := raisingModule_reported.recorded
    rw [hx, shouldRetry_iff hn]
    intro h
    obtain ⟨e, he⟩ := h.mp ⟨hs, "RuntimeError", by decide, ht⟩
    cases he
  · have hends := refusingHost_ends "APIError" "500 Server Error"
    rw [hends.eq, shouldRetry_iff hn]
    intro h
    obtain ⟨-, name, hname, ht⟩ := h.mpr ⟨_, rfl⟩
    cases ht
    exact absurd hname (by decide)

end Serverless.Runtime
