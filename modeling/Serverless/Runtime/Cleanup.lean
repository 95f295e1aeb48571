import Serverless.Model.ContainerCalls
import Serverless.Runtime.Protocol

/-!
# Cleaning up after an execution

Whatever the Docker client and the file system do, the `finally` block runs its calls once and
the ending of the `try` block stands; a timeout stays a timeout whatever else goes wrong.
-/
namespace Serverless.Runtime

open Serverless.Library Serverless.Model Serverless.Model.DockerRuntimeExecutor

variable {x : DockerRuntimeExecutor} {d : Docker} {spec : RuntimeInvocationSpec}

/-- The calls of the `finally` block. -/
def IsCleanup (call : ContainerCall) : Prop := call.isRemove = true ∨ call.isUnlink = true

/-- A call of the `try` block is none of the `finally` block. -/
theorem avoids_perform_of {α : Type} {call : ContainerCall} {outcome : Except Fault α}
    (hr : call.isRemove = false) (hu : call.isUnlink = false) :
    Traced.Avoids IsCleanup (Traced.perform call outcome) := by
  apply Traced.avoids_perform
  rintro (h | h)
  · rw [hr] at h
    cases h
  · rw [hu] at h
    cases h

/-- A computation that makes no call at all. -/
theorem avoids_silent {α : Type} (outcome : Except Fault α) :
    Traced.Avoids IsCleanup (⟨[], outcome⟩ : Execution α) := by
  intro call h
  cases h

theorem avoids_readStderr : Traced.Avoids IsCleanup (readStderr d) :=
  (avoids_perform_of rfl rfl).bind fun _ => Traced.avoids_pure _

theorem avoids_readStdout : Traced.Avoids IsCleanup (readStdout d) :=
  (avoids_perform_of rfl rfl).bind fun _ => Traced.avoids_pure _

theorem avoids_storeLogs (id : UUID) (logs : ReadLogs) :
    Traced.Avoids IsCleanup (x.storeLogs d id logs) := by
  unfold storeLogs
  split
  · split
    · exact Traced.avoids_pure _
    · exact (avoids_perform_of rfl rfl).bind fun _ => Traced.avoids_pure _
  · exact avoids_silent _

theorem avoids_wasOomKilled : Traced.Avoids IsCleanup (wasOomKilled d) := by
  apply Traced.Avoids.handle
  · exact (avoids_perform_of rfl rfl).bind fun _ => avoids_silent _
  · exact fun _ => Traced.avoids_pure _

theorem avoids_timeoutResult (container : Container) :
    Traced.Avoids IsCleanup (x.timeoutResult d spec container) := by
  refine Traced.Avoids.bind ?_ fun _ => Traced.Avoids.bind ?_ fun _ => Traced.Avoids.bind ?_ fun _ =>
    Traced.avoids_pure _
  · exact (avoids_perform_of rfl rfl).handle fun _ => Traced.avoids_pure _
  · exact avoids_readStderr.handle fun _ => Traced.avoids_pure _
  · exact (avoids_storeLogs _ _).handle fun _ => Traced.avoids_pure _

theorem avoids_parsedOutput (container : Container) (exitCode : Int) (logsRef : Option String)
    (stdout : ReadLogs) :
    Traced.Avoids IsCleanup (x.parsedOutput d spec container exitCode logsRef stdout) := by
  unfold parsedOutput
  split
  · exact Traced.avoids_raise _
  split
  · exact Traced.avoids_raise _
  · exact Traced.avoids_pure _
  · exact (avoids_perform_of rfl rfl).bind fun _ => Traced.avoids_pure _

theorem avoids_exitedResult (container : Container) (waitResult : PyValue) :
    Traced.Avoids IsCleanup (x.exitedResult d spec container waitResult) := by
  refine Traced.Avoids.bind (avoids_silent _) fun exitCode => avoids_readStderr.bind fun stderr =>
    (avoids_storeLogs _ _).bind fun logsRef => avoids_wasOomKilled.bind fun oomKilled => ?_
  split
  · exact Traced.avoids_pure _
  · exact avoids_readStdout.bind fun stdout => avoids_parsedOutput _ _ _ _

/-- Every path through the `try` block leaves the cleanup to the `finally` block. -/
theorem avoids_tryBody (packagePath : PosixPath) : Traced.Avoids IsCleanup (x.tryBody d spec packagePath) := by
  refine (avoids_perform_of rfl rfl).bind fun container => ?_
  cases container with
  | none => exact Traced.avoids_raise _
  | some container =>
    unfold useContainer
    dsimp only
    split
    · exact (avoids_perform_of rfl rfl).bind fun _ => avoids_exitedResult _ _
    · split
      · exact (avoids_perform_of rfl rfl).bind fun _ => avoids_timeoutResult _
      · exact avoids_perform_of rfl rfl

/-! ## The `finally` block -/

/-- A single call under a handler that catches what it raises: the call is made, and nothing is
raised. -/
theorem handled_call {call : ContainerCall} {outcome : Except Fault Unit} {caught : Fault → Bool}
    (h : ∀ f, outcome = .error f → caught f = true) :
    Traced.handle (Traced.perform call outcome) caught (fun _ => pure ()) = ⟨[call], .ok ()⟩ := by
  cases outcome with
  | ok u => rfl
  | error f =>
    rw [Traced.handle_caught rfl (h f rfl)]
    rfl

theorem osError_of_asOSError {outcome : Except PyException Unit} {f : Fault}
    (h : asOSError outcome = .error f) : f.osError = true := by
  cases outcome with
  | ok u => cases h
  | error e =>
    cases h
    rfl

theorem removeContainer_eq : removeContainer d = ⟨[.remove true], .ok ()⟩ :=
  handled_call fun _ _ => rfl

theorem removeInput_eq : x.removeInput d spec = ⟨[.unlink (x.inputPath spec.invocationId) true], .ok ()⟩ :=
  handled_call fun _ h => osError_of_asOSError h

/-- The calls of the `finally` block for what the variable `container` holds. -/
def cleanupCalls (x : DockerRuntimeExecutor) (spec : RuntimeInvocationSpec) (container : Option Container) :
    List ContainerCall :=
  (if container.isSome then [.remove true] else []) ++ [.unlink (x.inputPath spec.invocationId) true]

theorem cleanup_eq (container : Option Container) :
    x.cleanup d spec container = ⟨cleanupCalls x spec container, .ok ()⟩ := by
  cases container with
  | none =>
    show Traced.bind (pure ()) (fun _ => x.removeInput d spec) = _
    rw [removeInput_eq]
    rfl
  | some container =>
    show Traced.bind (removeContainer d) (fun _ => x.removeInput d spec) = _
    rw [removeInput_eq, removeContainer_eq]
    rfl

/-! ## Timeouts -/

theorem osError_of_storeLogs {id : UUID} {logs : List UInt8} {f : Fault}
    (h : (x.storeLogs d id (.ok logs)).outcome = .error f) : f.osError = true := by
  unfold storeLogs at h
  dsimp only at h
  split at h
  · cases h
  · cases hw : asOSError d.writeLogs with
    | ok u =>
      rw [Traced.bind_ok (a := u) (by exact hw)] at h
      cases h
    | error e =>
      rw [Traced.bind_error (e := e) (by exact hw)] at h
      cases h
      exact osError_of_asOSError hw

/-- `container.logs` has returned an object that is no bytes, and `write_logs` comes to use it. -/
def OpaqueStderr (d : Docker) (object : OpaqueLogs) : Prop :=
  d.stderr = .ok (.other object) ∧ d.writeLogs = .ok ()

theorem readStderr_outcome : (readStderr d).outcome = d.stderr.map readLogs := by
  cases h : d.stderr with
  | ok v => rw [readStderr, Traced.bind_ok (a := v) (by exact h)]; rfl
  | error f => rw [readStderr, Traced.bind_error (e := f) (by exact h)]; rfl

theorem kill_handled : (Traced.handle (Traced.perform ContainerCall.kill d.kill) catchAll
    (fun _ => pure ())).outcome = .ok () :=
  congrArg Traced.outcome (handled_call fun _ _ => rfl)

/-- What the handler around `read_logs` leaves. -/
theorem readStderr_handled :
    (Traced.handle (readStderr d) catchAll fun _ => pure (.ok [])).outcome =
      .ok ((d.stderr.map readLogs).toOption.getD (.ok [])) := by
  cases h : d.stderr with
  | ok logs =>
    have hout : (readStderr d).outcome = .ok (readLogs logs) := by rw [readStderr_outcome, h]; rfl
    rw [Traced.handle_ok hout, hout]
    rfl
  | error f =>
    have hout : (readStderr d).outcome = .error f := by rw [readStderr_outcome, h]; rfl
    rw [Traced.handle_caught hout rfl]
    rfl

/-- Storing an object that is no bytes ends like the directory that is made for it, or in the
exception that using it raises. -/
theorem storeLogs_object_handled (id : UUID) (object : OpaqueLogs) :
    (Traced.handle (x.storeLogs d id (.error object)) (·.osError) fun _ => pure none).outcome =
      match d.writeLogs with
      | .ok _ => .error ⟨object.written, false⟩
      | .error _ => .ok none := by
  unfold storeLogs
  cases d.writeLogs <;> rfl

theorem readLogs_error {logs : LogsValue} {object : OpaqueLogs} (h : readLogs logs = .error object) :
    logs = .other object := by
  cases logs with
  | bytes | str | falsy => cases h
  | other found =>
    cases h
    rfl

/-- Killing the container, reading its logs and storing them may each fail: there is a result
still, and it is a timeout, unless the logs that have been read cannot be used as bytes. -/
theorem timeoutResult_returns_iff (container : Container) :
    (∃ result, (x.timeoutResult d spec container).outcome = .ok result ∧ result.status = .timeout) ↔
      ¬ ∃ object, OpaqueStderr d object := by
  rw [timeoutResult, Traced.bind_ok kill_handled]
  dsimp only
  rw [Traced.bind_ok readStderr_handled]
  dsimp only
  cases hread : (d.stderr.map readLogs).toOption.getD (.ok []) with
  | ok stderr =>
    obtain ⟨logsRef, hstore⟩ := Traced.handle_returns (x.storeLogs d spec.invocationId (.ok stderr))
      (·.osError) none fun _ h => osError_of_storeLogs h
    rw [Traced.bind_ok hstore]
    refine iff_of_true ⟨_, rfl, rfl⟩ ?_
    rintro ⟨object, hstderr, -⟩
    rw [hstderr] at hread
    cases hread
  | error object =>
    have hstderr : d.stderr = .ok (.other object) := by
      cases hd : d.stderr with
      | error f =>
        rw [hd] at hread
        cases hread
      | ok logs =>
        rw [hd] at hread
        rw [readLogs_error hread]
    have hstore := storeLogs_object_handled (x := x) (d := d) spec.invocationId object
    cases hwrite : d.writeLogs with
    | ok u =>
      rw [hwrite] at hstore
      rw [Traced.bind_error hstore]
      refine iff_of_false ?_ (not_not_intro ⟨object, hstderr, hwrite⟩)
      rintro ⟨result, hresult, -⟩
      cases hresult
    | error e =>
      rw [hwrite] at hstore
      rw [Traced.bind_ok hstore]
      refine iff_of_true ⟨_, rfl, rfl⟩ ?_
      rintro ⟨found, -, hok⟩
      rw [hwrite] at hok
      cases hok

/-- What `build_timeout_result` returns is a timeout. -/
theorem timeoutResult_returned {container : Container} {result : RuntimeExecutionResult}
    (h : (x.timeoutResult d spec container).outcome = .ok result) :
    result.status = .timeout ∧ result.resultRef = none := by
  obtain ⟨u, -, h, -⟩ := Traced.outcome_bind h
  obtain ⟨stderr, -, h, -⟩ := Traced.outcome_bind h
  obtain ⟨logsRef, -, h, -⟩ := Traced.outcome_bind h
  cases h
  exact ⟨rfl, rfl⟩

/-! ## The whole execution -/

/-- The package that the execution mounts. -/
def packagePathOf (x : DockerRuntimeExecutor) (spec : RuntimeInvocationSpec) : PosixPath :=
  resolvePath x.workspaceRoot spec.packageUri

/-- The execution gets as far as writing the input file. -/
structure InputWritten (x : DockerRuntimeExecutor) (d : Docker) (spec : RuntimeInvocationSpec) : Prop where
  client : d.client = .ok ()
  package : d.packageExists (packagePathOf x spec) = true
  input : d.writeInput = .ok ()

/-- The calls before the `try` block. -/
def entryCalls (x : DockerRuntimeExecutor) (spec : RuntimeInvocationSpec) : List ContainerCall :=
  [.fromEnv, .writeInput (x.inputPath spec.invocationId)]

/-- The calls of an execution that has written its input, and its ending. -/
theorem executeContainerCalls_eq (h : InputWritten x d spec) :
    x.executeContainerCalls d spec =
      ⟨entryCalls x spec ++ ((x.tryBody d spec (packagePathOf x spec)).calls ++
          cleanupCalls x spec (d.run (packagePathOf x spec)).toOption.join),
        (x.tryBody d spec (packagePathOf x spec)).outcome⟩ := by
  have hensure : Traced.ensure (x.tryBody d spec (packagePathOf x spec))
      (x.cleanup d spec (d.run (packagePathOf x spec)).toOption.join) =
      ⟨(x.tryBody d spec (packagePathOf x spec)).calls ++
          cleanupCalls x spec (d.run (packagePathOf x spec)).toOption.join,
        (x.tryBody d spec (packagePathOf x spec)).outcome⟩ := by
    rw [cleanup_eq]
    rfl
  have hpackage : ¬ ¬ d.packageExists (resolvePath x.workspaceRoot spec.packageUri) = true :=
    not_not.mpr h.package
  unfold executeContainerCalls
  rw [Traced.bind_ok (a := ()) (by exact h.client)]
  dsimp only
  rw [if_neg hpackage, Traced.bind_ok (a := ()) (by exact h.input)]
  dsimp only
  rw [show resolvePath x.workspaceRoot spec.packageUri = packagePathOf x spec from rfl, hensure]
  rfl

theorem tryBody_timeout {container : Container} {f : Fault} {packagePath : PosixPath}
    (hrun : d.run packagePath = .ok (some container)) (hwait : d.wait spec.timeoutSeconds = .error f)
    (htimeout : f.exception.isTimeoutError = true) :
    (x.tryBody d spec packagePath).outcome = (x.timeoutResult d spec container).outcome := by
  rw [tryBody, Traced.bind_ok (a := some container) (by exact hrun)]
  simp only [useContainer, hwait, htimeout, if_true]
  rfl

theorem filter_cleanup {kind : ContainerCall → Bool} (hkind : ∀ call, kind call = true → IsCleanup call)
    (hentry : (entryCalls x spec).filter kind = []) (h : InputWritten x d spec) :
    (x.executeContainerCalls d spec).calls.filter kind =
      (cleanupCalls x spec (d.run (packagePathOf x spec)).toOption.join).filter kind := by
  have hbody : (x.tryBody d spec (packagePathOf x spec)).calls.filter kind = [] := by
    apply List.filter_eq_nil_iff.mpr
    intro call hc hk
    exact avoids_tryBody _ call hc (hkind call hk)
  rw [executeContainerCalls_eq h, List.filter_append, List.filter_append, hentry, hbody]
  rfl

/-- Once the input file is written: the container is removed, by force, exactly once if
`containers.run` returned one and never otherwise; the input file is unlinked exactly once; the
ending is the one of the `try` block, whatever removing and unlinking do; and an exception of
`container.wait` that is recognised as a timeout ends in a timeout result, unless the logs of the
container are no bytes and are about to be written. -/
theorem cleanup_exact (x : DockerRuntimeExecutor) (d : Docker) (spec : RuntimeInvocationSpec)
    (h : InputWritten x d spec) :
    (x.executeContainerCalls d spec).calls.filter ContainerCall.isRemove =
        (if (d.run (packagePathOf x spec)).toOption.join.isSome then [.remove true] else []) ∧
      (x.executeContainerCalls d spec).calls.filter ContainerCall.isUnlink =
        [.unlink (x.inputPath spec.invocationId) true] ∧
      (x.executeContainerCalls d spec).outcome = (x.tryBody d spec (packagePathOf x spec)).outcome ∧
      (∀ remove unlink,
        (x.executeContainerCalls { d with remove := remove, unlink := unlink } spec).outcome =
          (x.executeContainerCalls d spec).outcome) ∧
      ∀ container f, d.run (packagePathOf x spec) = .ok (some container) →
        d.wait spec.timeoutSeconds = .error f → f.exception.isTimeoutError = true →
        ((∃ result, (x.executeContainerCalls d spec).outcome = .ok result ∧
            result.status = .timeout) ↔ ¬ ∃ object, OpaqueStderr d object) := by
  refine ⟨?_, ?_, ?_, ?_, ?_⟩
  · rw [filter_cleanup (fun _ hk => .inl hk) rfl h]
    cases (d.run (packagePathOf x spec)).toOption.join <;> rfl
  · rw [filter_cleanup (fun _ hk => .inr hk) rfl h]
    cases (d.run (packagePathOf x spec)).toOption.join <;> rfl
  · rw [executeContainerCalls_eq h]
  · intro remove unlink
    have h' : InputWritten x { d with remove := remove, unlink := unlink } spec :=
      ⟨h.client, h.package, h.input⟩
    rw [executeContainerCalls_eq h, executeContainerCalls_eq h']
    rfl
  · intro container f hrun hwait htimeout
    rw [executeContainerCalls_eq h]
    dsimp only
    rw [tryBody_timeout hrun hwait htimeout]
    exact timeoutResult_returns_iff container

/-- A Docker daemon on which waiting times out and everything after it fails. -/
def brokenDocker : Docker where
  client := .ok ()
  packageExists _ := true
  writeInput := .ok ()
  run _ := .ok (some ⟨some "f00d"⟩)
  wait _ := .error (.of "ConnectionError" "Docker wait connection failed: Read timed out")
  elapsedMs := 30000
  kill := .error (.of "RuntimeError" "kill failed")
  stderr := .error (.of "RuntimeError" "logs failed")
  stdout := .error (.of "RuntimeError" "logs failed")
  reload := .error (.of "RuntimeError" "reload failed")
  remove := .error (.of "RuntimeError" "remove failed")
  writeLogs := .error (.of "OSError" "disk full")
  writeResult := .error (.of "OSError" "disk full")
  unlink := .error (.of "PermissionError" "read-only file system")
  intOf _ := .error (.of "ValueError" "invalid literal")

/-- The specification of a short run. -/
def shortRun : RuntimeInvocationSpec where
  invocationId := 3
  functionName := "hello"
  functionVersion := 1
  handler := "main.handler"
  packageUri := "storage/packages/hello.zip"
  payload := .null
  memoryLimitMb := 256
  cpuLimit := 1 / 2
  timeoutSeconds := 30

theorem cleanup_exact_broken :
    InputWritten demoExecutor brokenDocker shortRun ∧
      ∃ result, (demoExecutor.executeContainerCalls brokenDocker shortRun).outcome = .ok result ∧
        result.status = .timeout := by
  have hinput : InputWritten demoExecutor brokenDocker shortRun := ⟨rfl, rfl, rfl⟩
  refine ⟨hinput, ?_⟩
  obtain ⟨-, -, -, -, htimeout⟩ := cleanup_exact demoExecutor brokenDocker shortRun hinput
  refine (htimeout _ _ rfl rfl (by decide +kernel)).mpr ?_
  rintro ⟨object, hstderr, -⟩
  cases hstderr

/-- The same daemon, but its logs are a number and the directory for them can be made. -/
def numberDocker : Docker :=
  { brokenDocker with
    stderr := .ok (.other
      { written := .of "TypeError" "'int' object is not subscriptable"
        decoded := .of "AttributeError" "'int' object has no attribute 'decode'" })
    writeLogs := .ok () }

/-- There the execution that has timed out raises what using the number raises. -/
theorem timeout_escapes_number : InputWritten demoExecutor numberDocker shortRun ∧
    (∃ f, numberDocker.wait shortRun.timeoutSeconds = .error f ∧ f.exception.isTimeoutError = true) ∧
    (demoExecutor.executeContainerCalls numberDocker shortRun).outcome =
      .error (.of "TypeError" "'int' object is not subscriptable") := by
  have hinput : InputWritten demoExecutor numberDocker shortRun := ⟨rfl, rfl, rfl⟩
  have htimeout : (PyException.of "ConnectionError"
      "Docker wait connection failed: Read timed out").isTimeoutError = true := by decide +kernel
  refine ⟨hinput, ⟨_, rfl, htimeout⟩, ?_⟩
  rw [executeContainerCalls_eq hinput]
  dsimp only
  rw [tryBody_timeout rfl rfl htimeout]
  rfl

/-! ## The same ending on a host -/

theorem buildSuccessResult_writes (host : Host) (id : UUID) (result : JsonValue) (durationMs : Int)
    (logsRef containerId : Option String) (exitCode : Int) :
    x.buildSuccessResult host id result durationMs logsRef containerId exitCode =
      (x.buildSuccessResult { host with writeResult := .ok () } id result durationMs logsRef containerId
        exitCode).bind fun r => if r.2 = [] then .ok r else host.writeResult.map fun _ => r := by
  unfold buildSuccessResult
  dsimp only
  split
  · rfl
  · cases host.writeResult <;> rfl

theorem parseRuntimeOutput_writes (host : Host) (id : UUID) (stdout : List UInt8) (exitCode durationMs : Int)
    (logsRef containerId : Option String) :
    x.parseRuntimeOutput host id stdout exitCode durationMs logsRef containerId =
      (x.parseRuntimeOutput { host with writeResult := .ok () } id stdout exitCode durationMs logsRef
        containerId).bind fun r => if r.2 = [] then .ok r else host.writeResult.map fun _ => r := by
  unfold parseRuntimeOutput
  dsimp only
  split
  · rfl
  · split
    · rfl
    · rfl
    · split
      · split
        · exact buildSuccessResult_writes ..
        · rfl
      · rfl
      · rfl
    · rfl

/-- The ending of an execution, without the class of its exception. -/
def endingOf {α : Type} (t : Execution α) : Except PyException α := t.outcome.mapError Fault.exception

theorem readStdout_outcome : (readStdout d).outcome = d.stdout.map readLogs := by
  cases h : d.stdout with
  | ok v => rw [readStdout, Traced.bind_ok (a := v) (by exact h)]; rfl
  | error f => rw [readStdout, Traced.bind_error (e := f) (by exact h)]; rfl

theorem storeLogs_ending (container : Container) (id : UUID) (logs : List UInt8) :
    endingOf (x.storeLogs d id (.ok logs)) =
      (x.writeLogs (hostOf d container) id logs).map Prod.fst := by
  unfold storeLogs writeLogs
  dsimp only
  split
  · rfl
  · dsimp only [hostOf]
    cases h : d.writeLogs with
    | ok u => rfl
    | error e => rfl

theorem wasOomKilled_outcome (container : Container) :
    (wasOomKilled d).outcome = .ok (hostOf d container).oomKilled := by
  unfold wasOomKilled
  dsimp only [hostOf]
  cases h : d.reload with
  | error f => rfl
  | ok attrs =>
    have hbind : (do
        let attrs ← Traced.perform ContainerCall.reload (Except.ok attrs)
        (⟨[], oomKilledFlag attrs⟩ : Execution Bool)).outcome = oomKilledFlag attrs := rfl
    cases hflag : oomKilledFlag attrs with
    | ok b =>
      rw [Traced.handle_ok (a := b) (by rw [hbind, hflag]), hbind, hflag]
      simp [Except.bind, hflag, Except.toOption]
    | error f =>
      rw [Traced.handle_caught (e := f) (by rw [hbind, hflag]) rfl]
      simp [Except.bind, hflag, Except.toOption, pure, Traced.pure]

theorem parsedOutput_ending (container : Container) (stdout : List UInt8) (exitCode : Int)
    (logsRef : Option String) :
    endingOf (x.parsedOutput d spec container exitCode logsRef (.ok stdout)) =
      (x.parseRuntimeOutput (hostOf d container) spec.invocationId stdout exitCode d.elapsedMs logsRef
        container.id).map Prod.fst := by
  rw [parseRuntimeOutput_writes]
  unfold parsedOutput
  dsimp only
  split
  next e he => rw [he]; rfl
  next result he => rw [he]; rfl
  next result file files he =>
    rw [he]
    dsimp only [hostOf]
    cases h : d.writeResult with
    | ok u => rfl
    | error e => rfl

theorem buildTimeoutResult_fst (host : Host) :
    (x.buildTimeoutResult host spec).1 =
      .timedOut s!"Invocation exceeded {formatG spec.timeoutSeconds}s timeout" (some host.elapsedMs)
        (((x.writeLogs host spec.invocationId (host.stderr.toOption.getD [])).map Prod.fst).toOption.getD none)
        host.containerId := by
  unfold buildTimeoutResult
  cases host.stderr with
  | ok logs =>
    dsimp only [Except.toOption, Option.getD_some]
    cases x.writeLogs host spec.invocationId logs <;> rfl
  | error e =>
    dsimp only [Except.toOption, Option.getD_none]
    cases x.writeLogs host spec.invocationId [] <;> rfl

/-- `container.logs` returns something that `read_logs` makes bytes of, if it returns. -/
def ReadableStderr (d : Docker) : Prop := ∀ object, d.stderr ≠ .ok (.other object)

/-- What is read from stderr, as the host has it. -/
theorem stderr_read (hread : ReadableStderr d) (container : Container) :
    (d.stderr.map readLogs).mapError Fault.exception = (hostOf d container).stderr.map Except.ok := by
  cases h : d.stderr with
  | error f => simp [hostOf, h, Except.map, Except.mapError, Except.bind]
  | ok logs =>
    cases logs with
    | bytes | str | falsy =>
      simp [hostOf, h, readLogs, Except.map, Except.mapError, Except.bind]
    | other object => exact absurd h (hread object)

theorem timeoutResult_outcome (hread : ReadableStderr d) (container : Container) :
    (x.timeoutResult d spec container).outcome =
      .ok (x.buildTimeoutResult (hostOf d container) spec).1 := by
  have hlogs : (d.stderr.map readLogs).toOption.getD (.ok []) =
      .ok ((hostOf d container).stderr.toOption.getD []) := by
    have hhost := stderr_read hread container
    cases h : d.stderr.map readLogs with
    | ok logs =>
      rw [h] at hhost
      cases hh : (hostOf d container).stderr <;> rw [hh] at hhost <;> cases hhost
      rfl
    | error f =>
      rw [h] at hhost
      cases hh : (hostOf d container).stderr <;> rw [hh] at hhost <;> cases hhost
      rfl
  have hstore (logs : List UInt8) :
      (Traced.handle (x.storeLogs d spec.invocationId (.ok logs)) (·.osError)
          (fun _ => pure none)).outcome =
        .ok (((x.writeLogs (hostOf d container) spec.invocationId logs).map Prod.fst).toOption.getD none) := by
    rw [← storeLogs_ending, endingOf]
    cases h : (x.storeLogs d spec.invocationId (.ok logs)).outcome with
    | ok ref =>
      rw [Traced.handle_ok h, h]
      rfl
    | error f =>
      rw [Traced.handle_caught h (osError_of_storeLogs h)]
      rfl
  rw [timeoutResult, Traced.bind_ok kill_handled]
  dsimp only
  rw [Traced.bind_ok readStderr_handled, hlogs]
  dsimp only
  rw [Traced.bind_ok (hstore _), buildTimeoutResult_fst]
  rfl

theorem endingOf_bind {α β : Type} (t : Execution α) (f : α → Execution β) :
    endingOf (t >>= f) = endingOf t >>= fun a => endingOf (f a) := by
  cases h : t.outcome with
  | ok a =>
    rw [Traced.bind_ok h, endingOf, endingOf, h]
    rfl
  | error e =>
    rw [Traced.bind_error h, endingOf, endingOf, h]
    rfl

/-- The ending after `container.wait` has returned, step by step as `executeContainer` has it. -/
theorem exitedResult_ending (hread : ReadableStderr d) (container : Container) {v : PyValue}
    {n : Int} (hn : extractExitCode d v = .ok n) :
    endingOf (x.exitedResult d spec container v) =
      (do
        let stderr ← (hostOf d container).stderr
        let (logsRef, logFiles) ← x.writeLogs (hostOf d container) spec.invocationId stderr
        if (hostOf d container).oomKilled then
          let limit := spec.memoryLimitMb
          pure (.failed "MemoryLimitExceeded" s!"Runtime exceeded {limit} MiB memory limit"
            (some d.elapsedMs) logsRef container.id (some n), logFiles)
        else
          let stdout ← (hostOf d container).stdout
          let (result, files) ← x.parseRuntimeOutput (hostOf d container) spec.invocationId stdout n
            d.elapsedMs logsRef container.id
          pure (result, logFiles ++ files) : Except PyException (RuntimeExecutionResult × List File)).map
        Prod.fst := by
  have hcode : endingOf (⟨[], (extractExitCode d v).mapError fun e => ⟨e, false⟩⟩ : Execution Int) = .ok n := by
    rw [hn]
    rfl
  have hstderr : endingOf (readStderr d) = (hostOf d container).stderr.map Except.ok := by
    rw [endingOf, readStderr_outcome, stderr_read hread container]
  have hoom : endingOf (wasOomKilled d) = .ok (hostOf d container).oomKilled := by
    rw [endingOf, wasOomKilled_outcome container]
    rfl
  simp only [exitedResult, endingOf_bind, hcode, hstderr, hoom]
  cases (hostOf d container).stderr with
  | error e => rfl
  | ok stderr =>
    simp only [bind, Except.bind, Except.map, storeLogs_ending container]
    cases x.writeLogs (hostOf d container) spec.invocationId stderr with
    | error e => rfl
    | ok written =>
      dsimp only
      cases (hostOf d container).oomKilled with
      | true => rfl
      | false =>
        simp only [Bool.false_eq_true, if_false]
        refine (endingOf_bind _ _).trans ?_
        rw [endingOf, readStdout_outcome]
        have hhost : (hostOf d container).stdout = (d.stdout.mapError Fault.exception).bind fun logs =>
          (readLogs logs).mapError OpaqueLogs.decoded := rfl
        cases hout : d.stdout with
        | error f =>
          rw [hhost, hout]
          rfl
        | ok logs =>
          simp only [hhost, hout, Except.map, Except.mapError, Except.bind, bind]
          cases hbytes : readLogs logs with
          | error object => rfl
          | ok stdout =>
            dsimp only
            rw [parsedOutput_ending]
            cases x.parseRuntimeOutput (hostOf d container) spec.invocationId stdout n d.elapsedMs
              written.1 container.id <;> rfl

/-- Where a container is started, its exit code can be read and what it has printed on stderr is
bytes, the ending is the one that `executeContainer` has on the corresponding host. -/
theorem executeContainerCalls_ending (h : InputWritten x d spec) (hread : ReadableStderr d)
    {container : Container}
    (hrun : d.run (packagePathOf x spec) = .ok (some container))
    (hexit : ∀ v, d.wait spec.timeoutSeconds = .ok v → ∃ n, extractExitCode d v = .ok n) :
    endingOf (x.executeContainerCalls d spec) =
      (x.executeContainer (hostOf d container) spec).map Prod.fst := by
  have hpackage : ¬ ¬ (hostOf d container).packageExists (resolvePath x.workspaceRoot spec.packageUri) = true :=
    not_not.mpr h.package
  have hbody : endingOf (x.executeContainerCalls d spec) =
      endingOf (x.useContainer d spec (some container)) := by
    rw [executeContainerCalls_eq h, tryBody, Traced.bind_ok (a := some container) (by exact hrun)]
    rfl
  rw [hbody, executeContainer, if_neg hpackage]
  cases hwait : d.wait spec.timeoutSeconds with
  | error f =>
    have hhost : (hostOf d container).wait spec.timeoutSeconds = .raised f.exception := by
      simp only [hostOf, hwait]
    simp only [useContainer, hwait, hhost]
    by_cases htimeout : f.exception.isTimeoutError = true
    · rw [if_pos htimeout, if_pos htimeout, endingOf_bind]
      show endingOf (x.timeoutResult d spec container) = _
      rw [endingOf, timeoutResult_outcome hread]
      rfl
    · rw [if_neg htimeout, if_neg htimeout]
      rfl
  | ok v =>
    obtain ⟨n, hn⟩ := hexit v hwait
    have hhost : (hostOf d container).wait spec.timeoutSeconds = .exited n := by
      simp only [hostOf, hwait, hn]
      rfl
    simp only [useContainer, hwait, hhost]
    rw [endingOf_bind]
    exact exitedResult_ending hread container hn

end Serverless.Runtime
