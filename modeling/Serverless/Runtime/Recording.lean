import Serverless.Ledger.Numbering
import Serverless.Model.Columns
import Serverless.Runtime.Retrying

/-!
# What can be recorded

The result of an attempt goes to columns of limited types, and most of it is what user
code chose. The record is committed, the invocation leaves `RUNNING` and the message is
acknowledged exactly if the names, messages and values that the attempt met fit the
columns they are bound for.
-/
namespace Serverless.Runtime

open Serverless.Library Serverless.Model

/-- The reference to what the container wrote to its error output. -/
def storedLogsRef (x : DockerRuntimeExecutor) (host : Host) (invocationId : UUID) :
    Option String :=
  match host.stderr with
  | .error _ => none
  | .ok stderr =>
    match x.writeLogs host invocationId stderr with
    | .error _ => none
    | .ok written => written.1

/-- What the deployment, Docker and the clock give for the record of a container. -/
structure HostFits (x : DockerRuntimeExecutor) (host : Host) (invocationId : UUID)
    (exitCode : Option Int) : Prop where
  logsRef : ∀ ref ∈ storedLogsRef x host invocationId, FitsVarchar 1024 ref
  containerId : ∀ id ∈ host.containerId, FitsVarchar 255 id
  exitCode : ∀ n ∈ exitCode, FitsInteger n
  elapsed : FitsInteger host.elapsedMs

section

variable (levels : Nat) (x : DockerRuntimeExecutor) (db : Database) (host : Host) (task : InvocationTask)
  (now : Time)

/-- The container exited with 0 and printed an object that says what the function returned. -/
def Returned (spec : RuntimeInvocationSpec) (v : JsonValue) : Prop :=
  ∃ logsRef logFiles stdout envelope, Captured x db host task now spec 0 logsRef logFiles stdout ∧
    outputText stdout ≠ [] ∧ x.lib.loads (outputText stdout) = .value (.dict envelope) ∧
    envelope.lookup ↑"ok" = some (.bool true) ∧ v = (envelope.lookup ↑"result").getD .null

/-- A value fits if it is small and JSONB can hold it, or if it is large and its file has a short
name. -/
def ValueFits (invocationId : UUID) (v : JsonValue) : Prop :=
  if (Utf8.encode (x.lib.dumps v)).length ≤ x.maxInlineResultBytes then FitsJsonb levels v
  else host.writeResult = .ok () →
    FitsVarchar 1024 (storageRef x.workspaceRoot (x.resultPath invocationId))

/-- Everything that the attempt meets fits the column it is bound for. -/
structure Recordable (attempt : InvocationAttempt) (completedAt : Time) : Prop where
  raised : ∀ e, Ends x db host task now (.error e) → FitsVarchar 255 e.className ∧
    FitsText e.message ∧ FitsInteger (durationMs attempt.startedAt completedAt)
  timedOut : ∀ spec e, Up x db host task now spec → host.wait spec.timeoutSeconds = .raised e →
    e.isTimeoutError = true → HostFits x host spec.invocationId none
  stopped : ∀ spec exitCode logsRef logFiles p,
    Stopped x db host task now spec exitCode logsRef logFiles → Ends x db host task now (.ok p) →
      HostFits x host spec.invocationId (some exitCode)
  reported : ∀ envelope, Reported x db host task now envelope →
    FitsVarchar 255 (x.lib.textOr envelope "error_type" "RuntimeError") ∧
      FitsText (x.lib.textOr envelope "error_message" "")
  returned : ∀ spec v, Returned x db host task now spec v →
    ValueFits levels x host spec.invocationId v

end

/-! ## Records of the three kinds -/

theorem fitsColumns_failed {levels : Nat} {errorType errorMessage : PyStr}
    {duration logsRef containerId exitCode} {n : Int} :
    FitsColumns levels (.failed errorType errorMessage duration logsRef containerId exitCode) n ↔
      FitsVarchar 255 errorType ∧ FitsText errorMessage ∧ (∀ t ∈ logsRef, FitsVarchar 1024 t) ∧
        (∀ t ∈ containerId, FitsVarchar 255 t) ∧ (∀ c ∈ exitCode, FitsInteger c) ∧
        FitsInteger n := by
  simp [fitsColumns_iff, RuntimeExecutionResult.failed, fitsJsonb_null]

theorem fitsColumns_timedOut {levels : Nat} {errorMessage : PyStr}
    {duration logsRef containerId exitCode} {n : Int} :
    FitsColumns levels (.timedOut errorMessage duration logsRef containerId exitCode) n ↔
      FitsText errorMessage ∧ (∀ t ∈ logsRef, FitsVarchar 1024 t) ∧
        (∀ t ∈ containerId, FitsVarchar 255 t) ∧ (∀ c ∈ exitCode, FitsInteger c) ∧
        FitsInteger n := by
  have hname : FitsVarchar 255 (CodePoint.ofString "TimeoutError") :=
    fitsVarchar_ofString (by decide) (by decide)
  simp [fitsColumns_iff, RuntimeExecutionResult.timedOut, fitsJsonb_null, hname]

section

variable {levels : Nat} {x : DockerRuntimeExecutor} {db : Database} {host : Host}
  {task : InvocationTask} {now : Time} {spec : RuntimeInvocationSpec} {exitCode : Int}
  {logsRef : Option String} {logFiles : List File}

theorem Stopped.logsRef_eq (h : Stopped x db host task now spec exitCode logsRef logFiles) :
    storedLogsRef x host spec.invocationId = logsRef := by
  obtain ⟨stderr, hs, hl⟩ := h.logs
  simp only [storedLogsRef, hs, hl]

/-- A container that ran out of time. -/
theorem buildTimeoutResult_eq : (x.buildTimeoutResult host spec).1 =
    .timedOut s!"Invocation exceeded {formatG spec.timeoutSeconds}s timeout" (some host.elapsedMs)
      (storedLogsRef x host spec.invocationId) host.containerId := by
  unfold DockerRuntimeExecutor.buildTimeoutResult storedLogsRef
  cases hs : host.stderr with
  | error e =>
    simp [DockerRuntimeExecutor.writeLogs]
  | ok stderr =>
    dsimp only
    cases hl : x.writeLogs host spec.invocationId stderr with
    | error e => rfl
    | ok written => rfl

/-- The record of a success. -/
theorem buildSuccessResult_fits {invocationId : UUID} {v : JsonValue} {durationMs n : Int}
    {containerId : Option String} {result : RuntimeExecutionResult} {files : List File}
    (h : x.buildSuccessResult host invocationId v durationMs logsRef containerId exitCode =
      .ok (result, files)) :
    FitsColumns levels result n ↔ ValueFits levels x host invocationId v ∧
      (∀ t ∈ logsRef, FitsVarchar 1024 t) ∧
      (∀ t ∈ containerId, FitsVarchar 255 t) ∧ FitsInteger exitCode ∧ FitsInteger n := by
  unfold DockerRuntimeExecutor.buildSuccessResult at h
  dsimp only at h
  unfold ValueFits
  split at h
  · rename_i hsize
    cases h
    rw [if_pos hsize]
    simp [fitsColumns_iff, RuntimeExecutionResult.succeeded]
  · rename_i hsize
    split at h
    · cases h
    · rename_i hdisk
      cases h
      rw [if_neg hsize]
      simp [fitsColumns_iff, fitsJsonb_null, hdisk]

/-- A value whose file cannot be written is not recorded at all. -/
theorem valueFits_of_error {invocationId : UUID} {v : JsonValue} {durationMs : Int}
    {containerId : Option String} {e : PyException}
    (h : x.buildSuccessResult host invocationId v durationMs logsRef containerId exitCode =
      .error e) : ValueFits levels x host invocationId v := by
  unfold DockerRuntimeExecutor.buildSuccessResult at h
  dsimp only at h
  unfold ValueFits
  split at h
  · cases h
  · rename_i hsize
    rw [if_neg hsize]
    intro hdisk
    rw [hdisk] at h
    cases h

/-- What every result keeps of the container. -/
structure Keeps (result : RuntimeExecutionResult) (durationMs : Int)
    (logsRef containerId : Option String) (exitCode : Int) : Prop where
  logsRef : result.logsRef = logsRef
  containerId : result.containerId = containerId
  exitCode : result.exitCode = some exitCode
  durationMs : result.durationMs = some durationMs

theorem buildSuccessResult_keeps {invocationId : UUID} {v : JsonValue} {durationMs : Int}
    {containerId : Option String} {result : RuntimeExecutionResult} {files : List File}
    (h : x.buildSuccessResult host invocationId v durationMs logsRef containerId exitCode =
      .ok (result, files)) : Keeps result durationMs logsRef containerId exitCode := by
  unfold DockerRuntimeExecutor.buildSuccessResult at h
  dsimp only at h
  split at h
  · cases h
    exact ⟨rfl, rfl, rfl, rfl⟩
  · split at h
    · cases h
    · cases h
      exact ⟨rfl, rfl, rfl, rfl⟩

theorem Parses.keeps {invocationId : UUID} {stdout : List UInt8} {durationMs : Int}
    {containerId : Option String} {p : RuntimeExecutionResult × List File}
    (h : Parses x host invocationId stdout exitCode durationMs logsRef containerId (.ok p)) :
    Keeps p.1 durationMs logsRef containerId exitCode := by
  generalize hr : Except.ok p = r at h
  cases h with
  | empty | invalid | notObject | reported | exit =>
    cases hr
    exact ⟨rfl, rfl, rfl, rfl⟩
  | raised => cases hr
  | succeeded => exact buildSuccessResult_keeps hr.symm

theorem Stopped.keeps (h : Stopped x db host task now spec exitCode logsRef logFiles)
    {p : RuntimeExecutionResult × List File} (hp : Ends x db host task now (.ok p)) :
    Keeps p.1 host.elapsedMs logsRef host.containerId exitCode := by
  have heq := hp.eq
  rw [h.execute_eq] at heq
  split at heq
  · cases heq
    exact ⟨rfl, rfl, rfl, rfl⟩
  · cases ho : host.stdout with
    | error e =>
      rw [ho] at heq
      cases heq
    | ok stdout =>
      have hparse := parses_total x host spec.invocationId stdout exitCode host.elapsedMs logsRef
        host.containerId
      rw [ho] at heq
      simp only [Except.bind] at heq
      split at heq
      · cases heq
      · rename_i q hq
        cases heq
        rw [hq] at hparse
        exact hparse.keeps

/-! ## Fitting, by how the attempt ended -/

/-- What is documented of `JSONDecodeError`: its message is one of a few fixed texts. -/
def PlainMessages (lib : PyLib) : Prop :=
  ∀ text msg, lib.loads text = .decodeError msg → FitsText msg

/-- The record of an attempt. -/
abbrev record (x : DockerRuntimeExecutor) (db : Database) (host : Host) (task : InvocationTask)
    (now : Time) : RuntimeExecutionResult :=
  recordedResult (x.execute db host task now)

theorem Ends.record_eq {p : RuntimeExecutionResult × List File}
    (h : Ends x db host task now (.ok p)) : record x db host task now = p.1 := by
  rw [record, h.eq, recordedResult]

variable {attempt : InvocationAttempt} {completedAt : Time}

/-- A message with a default that fits. -/
theorem fitsText_textOr (lib : PyLib) (envelope : List (PyStr × JsonValue)) {key default : PyStr}
    (hd : FitsText default) : FitsText (lib.textOr envelope key default) ↔
      FitsText (lib.textOr envelope key "") := by
  have hempty : FitsText (CodePoint.ofString "") := fitsText_ofString.mpr (by decide)
  unfold PyLib.textOr
  split
  · exact iff_of_true hd hempty
  · split
    · exact Iff.rfl
    · exact iff_of_true hd hempty

theorem fitsText_exitCode (exitCode : Int) : FitsText s!"Runtime exited with code {exitCode}" := by
  show FitsText (CodePoint.ofString ("Runtime exited with code " ++ toString exitCode))
  exact fitsText_before (by decide) (fitsText_int exitCode)

/-- What fits was met as something that fits. -/
theorem recordable_of_fits
    (h : FitsColumns levels (record x db host task now)
      (recordedDuration attempt (record x db host task now) completedAt)) :
    Recordable levels x db host task now attempt completedAt := by
  constructor
  · intro e he
    rw [record, he.eq, recordedResult, fitsColumns_failed] at h
    exact ⟨h.1, h.2.1, h.2.2.2.2.2⟩
  · intro spec e hu hw ht
    rw [(Ends.timeout hu hw ht).record_eq, buildTimeoutResult_eq, fitsColumns_timedOut] at h
    exact ⟨h.2.1, h.2.2.1, h.2.2.2.1, h.2.2.2.2⟩
  · intro spec exitCode logsRef logFiles p hs hp
    have hk := hs.keeps hp
    rw [hp.record_eq] at h
    refine ⟨?_, ?_, ?_, ?_⟩
    · rw [hs.logsRef_eq, ← hk.logsRef]
      exact h.logsRef
    · rw [← hk.containerId]
      exact h.containerId
    · rw [← hk.exitCode]
      exact h.exitCode
    · have hd := h.durationMs
      rw [recordedDuration, hk.durationMs] at hd
      exact hd
  · rintro envelope ⟨spec, exitCode, logsRef, logFiles, stdout, hc, ht, hl, hok⟩
    rw [(Ends.parsed hc (.reported ht hl hok)).record_eq, fitsColumns_failed,
      fitsText_textOr _ _ (fitsText_exitCode exitCode)] at h
    exact ⟨h.1, h.2.1⟩
  · rintro spec v ⟨logsRef, logFiles, stdout, envelope, hc, ht, hl, hok, rfl⟩
    have hparse : Parses x host spec.invocationId stdout 0 host.elapsedMs logsRef host.containerId
        (x.buildSuccessResult host spec.invocationId ((envelope.lookup ↑"result").getD .null)
          host.elapsedMs logsRef host.containerId 0) := .succeeded ht hl hok rfl
    cases hb : x.buildSuccessResult host spec.invocationId ((envelope.lookup ↑"result").getD .null)
      host.elapsedMs logsRef host.containerId 0 with
    | error e => exact valueFits_of_error hb
    | ok p =>
      rw [hb] at hparse
      rw [(Ends.parsed hc hparse).record_eq] at h
      exact ((buildSuccessResult_fits hb).mp h).1

/-- What was met as something that fits, fits. -/
theorem Parses.fits (hlib : PlainMessages x.lib) {stdout : List UInt8}
    {p : RuntimeExecutionResult × List File}
    (hr : Recordable levels x db host task now attempt completedAt)
    (hc : Captured x db host task now spec exitCode logsRef logFiles stdout)
    (h : Parses x host spec.invocationId stdout exitCode host.elapsedMs logsRef host.containerId
      (.ok p)) : FitsColumns levels p.1 (recordedDuration attempt p.1 completedAt) := by
  have hhost := hr.stopped _ _ _ _ _ hc.toStopped (.parsed hc h)
  have hlogs := hhost.logsRef
  rw [hc.toStopped.logsRef_eq] at hlogs
  have hfailed : ∀ {errorType errorMessage : PyStr}, FitsVarchar 255 errorType →
      FitsText errorMessage → FitsColumns levels (.failed errorType errorMessage (some host.elapsedMs)
        logsRef host.containerId (some exitCode)) host.elapsedMs :=
    fun ht hm => fitsColumns_failed.mpr
      ⟨ht, hm, hlogs, hhost.containerId, hhost.exitCode, hhost.elapsed⟩
  have hinvalid : FitsVarchar 255 (CodePoint.ofString "InvalidRuntimeOutput") :=
    fitsVarchar_ofString (by decide) (by decide)
  have hduration : recordedDuration attempt p.1 completedAt = host.elapsedMs := by
    rw [recordedDuration, h.keeps.durationMs]
    rfl
  rw [hduration]
  generalize hq : Except.ok p = q at h
  cases h with
  | empty ht =>
    cases hq
    refine hfailed hinvalid ?_
    show FitsText (CodePoint.ofString
      ("Runtime produced no JSON result; exit code " ++ toString exitCode))
    exact fitsText_before (by decide) (fitsText_int exitCode)
  | raised ht hl => cases hq
  | @invalid msg ht hl =>
    cases hq
    refine hfailed hinvalid ?_
    show FitsText (CodePoint.ofString ("Runtime stdout is not valid JSON: " ++ msg))
    exact fitsText_before (by decide) (hlib _ _ hl)
  | notObject ht hl hv =>
    cases hq
    exact hfailed hinvalid (fitsText_ofString.mpr (by decide))
  | succeeded ht hl hok hexit =>
    subst hexit
    obtain ⟨result, files⟩ := p
    exact (buildSuccessResult_fits hq.symm).mpr
      ⟨hr.returned spec _ ⟨logsRef, logFiles, stdout, _, hc, ht, hl, hok, rfl⟩, hlogs,
        hhost.containerId, hhost.exitCode 0 rfl, hhost.elapsed⟩
  | reported ht hl hok =>
    cases hq
    obtain ⟨htype, hmessage⟩ := hr.reported _
      ⟨spec, exitCode, logsRef, logFiles, stdout, hc, ht, hl, hok⟩
    exact hfailed htype ((fitsText_textOr _ _ (fitsText_exitCode exitCode)).mpr hmessage)
  | exit ht hl htrue hfalse =>
    cases hq
    exact hfailed (fitsVarchar_ofString (by decide) (by decide)) (fitsText_exitCode exitCode)

theorem fits_of_recordable (hlib : PlainMessages x.lib)
    (hr : Recordable levels x db host task now attempt completedAt) :
    FitsColumns levels (record x db host task now)
      (recordedDuration attempt (record x db host task now) completedAt) := by
  have hends := execute_ends x db host task now
  cases hx : x.execute db host task now with
  | error e =>
    rw [hx] at hends
    obtain ⟨htype, hmessage, hduration⟩ := hr.raised e hends
    rw [record, hx, recordedResult, fitsColumns_failed]
    exact ⟨htype, hmessage, by simp, by simp, by simp, hduration⟩
  | ok p =>
    rw [hx] at hends
    rw [hends.record_eq]
    cases hends with
    | late hp =>
      rw [planExecution_finished hp, fitsColumns_timedOut]
      exact ⟨fitsText_ofString.mpr (by decide), by simp, by simp, by simp,
        (by decide : FitsInteger 0)⟩
    | @timeout spec e hu hw ht =>
      have hhost := hr.timedOut spec e hu hw ht
      rw [buildTimeoutResult_eq, fitsColumns_timedOut]
      refine ⟨?_, hhost.logsRef, hhost.containerId, hhost.exitCode, hhost.elapsed⟩
      show FitsText (CodePoint.ofString
        ("Invocation exceeded " ++ formatG spec.timeoutSeconds ++ "s timeout"))
      exact fitsText_between (by decide) (fitsText_formatG _) (by decide)
    | @memory spec exitCode logsRef logFiles limit hs hm hl =>
      have hhost := hr.stopped _ _ _ _ _ hs (.memory hs hm hl)
      have hlogs := hhost.logsRef
      rw [hs.logsRef_eq] at hlogs
      refine fitsColumns_failed.mpr ⟨fitsVarchar_ofString (by decide) (by decide), ?_, hlogs,
        hhost.containerId, hhost.exitCode, hhost.elapsed⟩
      show FitsText (CodePoint.ofString
        ("Runtime exceeded " ++ toString limit ++ " MiB memory limit"))
      exact fitsText_between (by decide) (fitsText_nat limit) (by decide)
    | parsed hc h =>
      have hfits := h.fits hlib hr hc
      exact hfits

/-- An attempt never ends as one that still runs. -/
theorem record_status : (record x db host task now).status ≠ .running := by
  have hends := execute_ends x db host task now
  cases hx : x.execute db host task now with
  | error e =>
    rw [record, hx, recordedResult]
    exact fun h => by cases h
  | ok p =>
    rw [hx] at hends
    rw [hends.record_eq]
    cases hends with
    | late hp =>
      rw [planExecution_finished hp]
      exact fun h => by cases h
    | timeout hu hw ht =>
      rw [buildTimeoutResult_eq]
      exact fun h => by cases h
    | memory => exact fun h => by cases h
    | @parsed spec exitCode logsRef logFiles files stdout result hc h =>
      dsimp only
      generalize hr : Except.ok (result, files) = r at h
      cases h with
      | empty | invalid | notObject | reported | exit =>
        cases hr
        exact fun h => by cases h
      | raised => cases hr
      | succeeded =>
        rw [buildSuccessResult_status hr.symm]
        exact fun h => by cases h

end

/-- **While an attempt runs, nothing but its columns can keep `mark_finished` from recording it.** -/
theorem markFinished_running {db : Database} (hn : Ledger.Numbered db) {a : InvocationAttempt}
    (ha : a ∈ db.attempts) (hrun : a.status = .running) {result : RuntimeExecutionResult}
    (hs : result.status ≠ .running) (decision : RetryDecision) {dispatchId : UUID}
    (hfresh : db.dispatches.get dispatchId = none) (now : Time) :
    ∃ db' row, markFinished db a.invocationId a.id (some a) result decision dispatchId now =
        (db', .ok row) ∧
      ∃ i, db'.invocations.get a.invocationId = some i ∧ i.status ≠ .running := by
  obtain ⟨i, hi, hid⟩ := hn.attemptOwner a ha
  have hat := hn.each i hi
  obtain ⟨hirun, hnumber⟩ := (hat.running a ha hid.symm).mp hrun
  have hget : db.invocations.get a.invocationId = some i := by
    rw [← hid]
    exact Table.get_of_mem hi
  have hload : loadAttempt db a.id (some a) = some a := by
    rw [loadAttempt, Table.get_of_mem ha]
    rfl
  have hguard : ¬ (a.invocationId ≠ a.invocationId ∨ i.status ≠ .running ∨
      a.status ≠ .running) := by
    simp [hirun, hrun]
  unfold markFinished
  rw [hget, hload]
  dsimp only
  rw [if_neg hguard]
  split
  · -- the outbox has no row for the next attempt yet
    obtain ⟨dispatches, hv⟩ := Table.insert_ok (t := db.dispatches)
      (r := retryDispatch a.invocationId dispatchId a.attemptNumber decision now) hfresh (by
        rintro pair hpair d hd he
        cases hpair
        have hp := Option.some.inj he
        have hle := hat.boundRunning d hd ((congrArg Prod.fst hp).trans hid.symm) hirun
        have hnext : d.attemptNumber = a.attemptNumber + 1 := congrArg Prod.snd hp
        omega)
    rw [hv]
    refine ⟨_, _, rfl, i.retry result, ?_, fun h => by cases h⟩
    simp only [Database.finishAttempt, Database.retryInvocation, Table.get_modify, if_true, hget,
      Option.map_some]
  · cases hstatus : attemptToInvocationStatus result.status with
    | none =>
      cases hr : result.status with
      | running => exact absurd hr hs
      | succeeded | failed | timeout =>
        rw [hr] at hstatus
        cases hstatus
    | some status =>
      refine ⟨_, _, rfl, i.complete status result now, ?_, fun h => ?_⟩
      · simp only [Database.finishAttempt, Database.completeInvocation, Table.get_modify, if_true,
          hget, Option.map_some]
      · have hterminal := attemptToInvocationStatus_isTerminal hstatus
        have hstill : status = .running := h
        rw [hstill] at hterminal
        exact absurd hterminal (by decide)

/-- The record is committed, the invocation does not run any more, and the message is
acknowledged. -/
structure Recorded (levels : Nat) (db : Database) (policy : RetryPolicy) (task : InvocationTask)
    (attempt : InvocationAttempt) (result : RuntimeExecutionResult) (dispatchId : UUID)
    (completedAt : Time) : Prop where
  fits : FitsColumns levels result (recordedDuration attempt result completedAt)
  left : ∃ i, (concludeTask levels db policy task attempt result dispatchId
    completedAt).1.invocations.get task.invocationId = some i ∧ i.status ≠ .running
  acknowledged : (concludeTask levels db policy task attempt result dispatchId completedAt).2 = true

/-- **An outcome is recorded exactly if everything that the attempt met fits its column.** The
attempt still runs in some reachable state `s`; `db` is what its container was loaded from, and
`levels` how deep the flush of the row can go. -/
theorem outcome_recorded_iff (levels : Nat) {x : DockerRuntimeExecutor} (hlib : PlainMessages x.lib)
    {s : Ledger.State} (h : Reachable Ledger.step Ledger.init s) {attempt : InvocationAttempt}
    (ha : attempt ∈ s.db.attempts) (hrun : attempt.status = .running) {task : InvocationTask}
    (htask : task.invocationId = attempt.invocationId) {dispatchId : UUID}
    (hfresh : s.db.dispatches.get dispatchId = none) (db : Database) (host : Host)
    (policy : RetryPolicy) (now completedAt : Time) :
    Recorded levels s.db policy task attempt (record x db host task now) dispatchId completedAt ↔
      Recordable levels x db host task now attempt completedAt := by
  constructor
  · exact fun hr => recordable_of_fits hr.fits
  · intro hr
    have hfits := fits_of_recordable hlib hr
    obtain ⟨db', row, hm, i, hi, hleft⟩ := markFinished_running (Ledger.inv_reachable h).numbered
      ha hrun record_status (policy.decide (record x db host task now) attempt.attemptNumber)
      hfresh completedAt
    rw [← htask] at hm hi
    have hc := concludeTask_committed hm hfits
    refine ⟨hfits, ⟨i, ?_, hleft⟩, ?_⟩
    · rw [hc]
      exact hi
    · rw [hc]

theorem plainMessages_pyLib (F : Json.Format) (repr : JsonValue → String) :
    PlainMessages (Json.pyLib F repr) := by
  intro text msg h
  simp only [Json.pyLib] at h
  split at h
  · cases h
  · rename_i e hl
    cases e with
    | decode msg' =>
      cases h
      exact Json.loads_error hl
    | tooManyDigits count => cases h
    | tooDeep kind => cases h

/-- The attempt row of the first message. -/
def runningAttempt : InvocationAttempt where
  id := 6
  invocationId := 3
  workerId := some 5
  attemptNumber := 1
  status := .running
  startedAt := 0

theorem runningAttempt_reachable : ∃ s, Reachable Ledger.step Ledger.init s ∧
    runningAttempt ∈ s.db.attempts ∧ s.db.dispatches.get 9 = none := by
  obtain ⟨s, hs, hp⟩ := reachable_of_replay Ledger.step (Ledger.lostWorkerRun.take 6)
    (fun s => s.db.attempts.get 6 = some runningAttempt ∧ s.db.dispatches.get 9 = none)
    Ledger.init_empty (by decide +kernel)
  have hp := of_decide_eq_true hp
  exact ⟨s, hs, Table.get_mem hp.1, hp.2⟩

theorem buildSuccessResult_inline {x : DockerRuntimeExecutor} {v : JsonValue}
    (hsize : (Utf8.encode (x.lib.dumps v)).length ≤ x.maxInlineResultBytes) (host : Host)
    (invocationId : UUID) (durationMs : Int) (logsRef containerId : Option String)
    (exitCode : Int) :
    x.buildSuccessResult host invocationId v durationMs logsRef containerId exitCode =
      .ok (.succeeded v (some durationMs) logsRef containerId exitCode, []) :=
  if_pos hsize

/-- What is recorded of a module that returns a small value. -/
theorem record_finishedHost {importText handlerText : List Char} {v : JsonValue}
    (hv : Json.Carried noFloats v) (hblank : Text.Blank importText)
    (hsize : (Utf8.encode (demoExecutor.lib.dumps v)).length ≤
      demoExecutor.maxInlineResultBytes) :
    record demoExecutor demoDatabase (finishedHost ⟨importText, handlerText, .returned v⟩)
      demoTask 0 = .succeeded v (some 12) none (some "f00d") 0 := by
  obtain ⟨spec, hc⟩ := finishedHost_captured ⟨importText, handlerText, .returned v⟩
  have hm : (HandlerOutcome.returned v).WellFormed noFloats := hv
  have hload := loads_outputText_ok demoExecutor_lib
    (loads_clean (m := ⟨importText, handlerText, .returned v⟩) hm hblank)
  have hparse : Parses demoExecutor (finishedHost ⟨importText, handlerText, .returned v⟩)
      spec.invocationId
      (Utf8.encode (runnerMain noFloats ⟨importText, handlerText, .returned v⟩).stdout) 0 12 none
      (some "f00d") (.ok (.succeeded v (some 12) none (some "f00d") 0, [])) := by
    rw [← buildSuccessResult_inline hsize]
    exact .succeeded (outputText_ne_nil noFloats _) hload rfl rfl
  exact (Ends.parsed hc hparse).record_eq

theorem outcome_recorded_quiet : ∃ s, Reachable Ledger.step Ledger.init s ∧
    runningAttempt ∈ s.db.attempts ∧
    Recorded 900 s.db demoPolicy demoTask runningAttempt
      (record demoExecutor demoDatabase (finishedHost quietModule) demoTask 0) 9 (seconds 1) := by
  obtain ⟨s, hs, ha, hfresh⟩ := runningAttempt_reachable
  have hlib : PlainMessages demoExecutor.lib := by
    rw [demoExecutor_lib]
    exact plainMessages_pyLib _ _
  have hfits : FitsColumns 900
      (record demoExecutor demoDatabase (finishedHost quietModule) demoTask 0)
      (recordedDuration runningAttempt
        (record demoExecutor demoDatabase (finishedHost quietModule) demoTask 0) (seconds 1)) := by
    have hcarried : Json.Carried noFloats (.dict [("message", .str "hello Ada")]) :=
      Json.carried_field (CodePoint.joined_ofString _) (CodePoint.joined_ofString _)
    have hrecord : record demoExecutor demoDatabase (finishedHost quietModule) demoTask 0 = _ :=
      record_finishedHost hcarried quietModule_blank (by decide +kernel)
    rw [hrecord]
    decide +kernel
  exact ⟨s, hs, ha, (outcome_recorded_iff 900 hlib hs ha rfl rfl hfresh demoDatabase _ demoPolicy 0
    (seconds 1)).mpr (recordable_of_fits hfits)⟩

/-- A small value that JSONB cannot hold is not recorded, whatever the handler prints. -/
theorem refused_of_not_fitsJsonb {handlerText : List Char} {v : JsonValue} (levels : Nat)
    (hv : Json.Carried noFloats v) (hsize : (Utf8.encode (demoExecutor.lib.dumps v)).length ≤
      demoExecutor.maxInlineResultBytes) (hfits : ¬ FitsJsonb levels v)
    (attempt : InvocationAttempt) (completedAt : Time) :
    ¬ FitsColumns levels
      (record demoExecutor demoDatabase (finishedHost ⟨[], handlerText, .returned v⟩) demoTask 0)
      (recordedDuration attempt (record demoExecutor demoDatabase
        (finishedHost ⟨[], handlerText, .returned v⟩) demoTask 0) completedAt) := by
  rw [record_finishedHost hv Text.blank_nil hsize]
  exact fun h => hfits h.resultInline

/-- A function that returns `float("nan")`. -/
def nanModule : UserModule := ⟨[], [], .returned .nan⟩

/-- A function that returns a lone surrogate. -/
def surrogateModule : UserModule := ⟨[], [], .returned (.str [0xD800])⟩

/-- **Functions that return `NaN` or a lone surrogate are never recorded**: their invocations stay
`RUNNING`, and their messages stay pending. -/
theorem nan_never_recorded : ∃ s, Reachable Ledger.step Ledger.init s ∧
    runningAttempt ∈ s.db.attempts ∧ ∀ m ∈ [nanModule, surrogateModule],
      concludeTask 900 s.db demoPolicy demoTask runningAttempt
        (record demoExecutor demoDatabase (finishedHost m) demoTask 0) 9 (seconds 1) =
          (s.db, false) ∧
      ¬ Recorded 900 s.db demoPolicy demoTask runningAttempt
        (record demoExecutor demoDatabase (finishedHost m) demoTask 0) 9 (seconds 1) := by
  obtain ⟨s, hs, ha, -⟩ := runningAttempt_reachable
  have hrefused : ∀ m ∈ [nanModule, surrogateModule], ¬ FitsColumns 900
      (record demoExecutor demoDatabase (finishedHost m) demoTask 0)
      (recordedDuration runningAttempt
        (record demoExecutor demoDatabase (finishedHost m) demoTask 0) (seconds 1)) := by
    intro m hm
    simp only [List.mem_cons, List.not_mem_nil, or_false] at hm
    rcases hm with rfl | rfl
    · exact refused_of_not_fitsJsonb 900 ⟨.nan, by decide⟩ (by decide +kernel) (by decide) _ _
    · exact refused_of_not_fitsJsonb 900 ⟨.str _ (by decide), by decide⟩ (by decide +kernel)
        (by decide) _ _
  exact ⟨s, hs, ha, fun m hm =>
    ⟨concludeTask_refused (hrefused m hm), fun h => hrefused m hm h.fits⟩⟩

end Serverless.Runtime
