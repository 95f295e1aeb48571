import Serverless.Model.Runtime

/-!
# Every way in which an attempt can end

`execute` and `parse_runtime_output` as relations between what they meet and what they
make of it: one constructor for each exit, with the guards that lead to it. Both are
proved to say what the functions compute.
-/
namespace Serverless.Runtime

open Serverless.Library Serverless.Model

/-! ## The output of a container -/

section

variable (x : DockerRuntimeExecutor) (host : Host) (invocationId : UUID) (stdout : List UInt8)
  (exitCode durationMs : Int) (logsRef containerId : Option String)

/-- The text that the worker decodes. -/
def outputText : List Char := Text.strip (Utf8.decode stdout)

/-- A failure that keeps the exit code and the logs, and writes no file. -/
def failedWith (errorType errorMessage : PyStr) :
    Except PyException (RuntimeExecutionResult × List File) :=
  .ok (.failed errorType errorMessage (some durationMs) logsRef containerId (some exitCode), [])

/-- The exits of `parse_runtime_output`. -/
inductive Parses : Except PyException (RuntimeExecutionResult × List File) → Prop where
  | empty (ht : outputText stdout = []) :
      Parses (failedWith exitCode durationMs logsRef containerId "InvalidRuntimeOutput"
        s!"Runtime produced no JSON result; exit code {exitCode}")
  | raised {e : PyException} (ht : outputText stdout ≠ [])
      (hl : x.lib.loads (outputText stdout) = .raised e) : Parses (.error e)
  | invalid {msg : String} (ht : outputText stdout ≠ [])
      (hl : x.lib.loads (outputText stdout) = .decodeError msg) :
      Parses (failedWith exitCode durationMs logsRef containerId "InvalidRuntimeOutput"
        s!"Runtime stdout is not valid JSON: {msg}")
  | notObject {v : JsonValue} (ht : outputText stdout ≠ [])
      (hl : x.lib.loads (outputText stdout) = .value v) (hv : ∀ envelope, v ≠ .dict envelope) :
      Parses (failedWith exitCode durationMs logsRef containerId "InvalidRuntimeOutput"
        "Runtime stdout JSON must be an object")
  | succeeded {envelope : List (PyStr × JsonValue)} (ht : outputText stdout ≠ [])
      (hl : x.lib.loads (outputText stdout) = .value (.dict envelope))
      (hok : envelope.lookup ↑"ok" = some (.bool true)) (hexit : exitCode = 0) :
      Parses (x.buildSuccessResult host invocationId ((envelope.lookup ↑"result").getD .null)
        durationMs logsRef containerId exitCode)
  | reported {envelope : List (PyStr × JsonValue)} (ht : outputText stdout ≠ [])
      (hl : x.lib.loads (outputText stdout) = .value (.dict envelope))
      (hok : envelope.lookup ↑"ok" = some (.bool false)) :
      Parses (failedWith exitCode durationMs logsRef containerId
        (x.lib.textOr envelope "error_type" "RuntimeError")
        (x.lib.textOr envelope "error_message" s!"Runtime exited with code {exitCode}"))
  | exit {envelope : List (PyStr × JsonValue)} (ht : outputText stdout ≠ [])
      (hl : x.lib.loads (outputText stdout) = .value (.dict envelope))
      (htrue : envelope.lookup ↑"ok" = some (.bool true) → exitCode ≠ 0)
      (hfalse : envelope.lookup ↑"ok" ≠ some (.bool false)) :
      Parses (failedWith exitCode durationMs logsRef containerId "RuntimeExitError"
        s!"Runtime exited with code {exitCode}")

end

section

variable {x : DockerRuntimeExecutor} {host : Host} {invocationId : UUID} {stdout : List UInt8}
  {exitCode durationMs : Int} {logsRef containerId : Option String}
  {r : Except PyException (RuntimeExecutionResult × List File)}

theorem Parses.eq
    (h : Parses x host invocationId stdout exitCode durationMs logsRef containerId r) :
    x.parseRuntimeOutput host invocationId stdout exitCode durationMs logsRef containerId = r := by
  unfold DockerRuntimeExecutor.parseRuntimeOutput
  dsimp only
  cases h with
  | empty ht => exact if_pos ht
  | raised ht hl =>
    rw [outputText] at ht hl
    rw [if_neg ht, hl]
  | invalid ht hl =>
    rw [outputText] at ht hl
    rw [if_neg ht, hl]
    rfl
  | @notObject v ht hl hv =>
    rw [outputText] at ht hl
    rw [if_neg ht, hl]
    cases v with
    | dict envelope => exact absurd rfl (hv envelope)
    | null | bool | int | float | nan | infinity | str | list => rfl
  | succeeded ht hl hok hexit =>
    rw [outputText] at ht hl
    rw [if_neg ht, hl]
    dsimp only
    rw [hok]
    exact if_pos hexit
  | reported ht hl hok =>
    rw [outputText] at ht hl
    rw [if_neg ht, hl]
    dsimp only
    rw [hok]
    rfl
  | exit ht hl htrue hfalse =>
    rw [outputText] at ht hl
    rw [if_neg ht, hl]
    dsimp only
    split
    · rename_i hok
      rw [if_neg (htrue hok)]
      rfl
    · rename_i hok
      exact absurd hok hfalse
    · rfl

/-- No output is left out. -/
theorem parses_total (x : DockerRuntimeExecutor) (host : Host) (invocationId : UUID)
    (stdout : List UInt8) (exitCode durationMs : Int) (logsRef containerId : Option String) :
    Parses x host invocationId stdout exitCode durationMs logsRef containerId
      (x.parseRuntimeOutput host invocationId stdout exitCode durationMs logsRef containerId) := by
  have hex : ∃ r, Parses x host invocationId stdout exitCode durationMs logsRef containerId r := by
    by_cases ht : outputText stdout = []
    · exact ⟨_, .empty ht⟩
    cases hl : x.lib.loads (outputText stdout) with
    | raised e => exact ⟨_, .raised ht hl⟩
    | decodeError msg => exact ⟨_, .invalid ht hl⟩
    | value v =>
      by_cases hv : ∃ envelope, v = .dict envelope
      · obtain ⟨envelope, rfl⟩ := hv
        by_cases hfalse : envelope.lookup ↑"ok" = some (.bool false)
        · exact ⟨_, .reported ht hl hfalse⟩
        by_cases htrue : envelope.lookup ↑"ok" = some (.bool true) ∧ exitCode = 0
        · exact ⟨_, .succeeded ht hl htrue.1 htrue.2⟩
        · exact ⟨_, .exit ht hl (fun hok hexit => htrue ⟨hok, hexit⟩) hfalse⟩
      · exact ⟨_, .notObject ht hl fun envelope he => hv ⟨envelope, he⟩⟩
  obtain ⟨r, hr⟩ := hex
  rw [hr.eq]
  exact hr

end

/-! ## The whole attempt -/

section

variable (x : DockerRuntimeExecutor) (db : Database) (host : Host) (task : InvocationTask)
  (now : Time)

/-- The container has been started. -/
structure Up (spec : RuntimeInvocationSpec) : Prop where
  plan : planExecution db task now = .container spec
  client : host.client = .ok ()
  package : host.packageExists (resolvePath x.workspaceRoot spec.packageUri) = true
  input : host.writeInput = .ok ()
  run : host.run (resolvePath x.workspaceRoot spec.packageUri) = .ok ()

/-- It has exited, and what it wrote to its error output is stored. -/
structure Stopped (spec : RuntimeInvocationSpec) (exitCode : Int) (logsRef : Option String)
    (logFiles : List File) : Prop extends Up x db host task now spec where
  wait : host.wait spec.timeoutSeconds = .exited exitCode
  logs : ∃ stderr, host.stderr = .ok stderr ∧
    x.writeLogs host spec.invocationId stderr = .ok (logsRef, logFiles)

/-- It had enough memory, and its output has been read. -/
structure Captured (spec : RuntimeInvocationSpec) (exitCode : Int) (logsRef : Option String)
    (logFiles : List File) (stdout : List UInt8) : Prop
    extends Stopped x db host task now spec exitCode logsRef logFiles where
  memory : host.oomKilled = false
  stdout : host.stdout = .ok stdout

/-- The exits of `execute`. -/
inductive Ends : Except PyException (RuntimeExecutionResult × List File) → Prop where
  | late {result : RuntimeExecutionResult} (hp : planExecution db task now = .finished result) :
      Ends (.ok (result, []))
  | notFound {e : PyException} (hp : planExecution db task now = .raised e) : Ends (.error e)
  | client {spec : RuntimeInvocationSpec} {e : PyException}
      (hp : planExecution db task now = .container spec) (h : host.client = .error e) :
      Ends (.error e)
  | package {spec : RuntimeInvocationSpec} {text : String}
      (hp : planExecution db task now = .container spec) (hc : host.client = .ok ())
      (h : host.packageExists (resolvePath x.workspaceRoot spec.packageUri) = false)
      (ht : text = (resolvePath x.workspaceRoot spec.packageUri).str) :
      Ends (.error (.of "FileNotFoundError" s!"Function package not found: {text}"))
  | input {spec : RuntimeInvocationSpec} {e : PyException}
      (hp : planExecution db task now = .container spec) (hc : host.client = .ok ())
      (hx : host.packageExists (resolvePath x.workspaceRoot spec.packageUri) = true)
      (h : host.writeInput = .error e) : Ends (.error e)
  | run {spec : RuntimeInvocationSpec} {e : PyException}
      (hp : planExecution db task now = .container spec) (hc : host.client = .ok ())
      (hx : host.packageExists (resolvePath x.workspaceRoot spec.packageUri) = true)
      (hi : host.writeInput = .ok ())
      (h : host.run (resolvePath x.workspaceRoot spec.packageUri) = .error e) : Ends (.error e)
  | wait {spec : RuntimeInvocationSpec} {e : PyException} (hu : Up x db host task now spec)
      (h : host.wait spec.timeoutSeconds = .raised e) (ht : e.isTimeoutError = false) :
      Ends (.error e)
  | timeout {spec : RuntimeInvocationSpec} {e : PyException} (hu : Up x db host task now spec)
      (h : host.wait spec.timeoutSeconds = .raised e) (ht : e.isTimeoutError = true) :
      Ends (.ok (x.buildTimeoutResult host spec))
  | stderr {spec : RuntimeInvocationSpec} {exitCode : Int} {e : PyException}
      (hu : Up x db host task now spec) (hw : host.wait spec.timeoutSeconds = .exited exitCode)
      (h : host.stderr = .error e) : Ends (.error e)
  | writeLogs {spec : RuntimeInvocationSpec} {exitCode : Int} {stderr : List UInt8}
      {e : PyException} (hu : Up x db host task now spec)
      (hw : host.wait spec.timeoutSeconds = .exited exitCode) (hs : host.stderr = .ok stderr)
      (h : x.writeLogs host spec.invocationId stderr = .error e) : Ends (.error e)
  | memory {spec : RuntimeInvocationSpec} {exitCode : Int} {logsRef : Option String}
      {logFiles : List File} {limit : Nat}
      (hs : Stopped x db host task now spec exitCode logsRef logFiles)
      (h : host.oomKilled = true) (hl : limit = spec.memoryLimitMb) :
      Ends (.ok (.failed "MemoryLimitExceeded" s!"Runtime exceeded {limit} MiB memory limit"
        (some host.elapsedMs) logsRef host.containerId (some exitCode), logFiles))
  | stdout {spec : RuntimeInvocationSpec} {exitCode : Int} {logsRef : Option String}
      {logFiles : List File} {e : PyException}
      (hs : Stopped x db host task now spec exitCode logsRef logFiles)
      (hm : host.oomKilled = false) (h : host.stdout = .error e) : Ends (.error e)
  | unparsed {spec : RuntimeInvocationSpec} {exitCode : Int} {logsRef : Option String}
      {logFiles : List File} {stdout : List UInt8} {e : PyException}
      (hc : Captured x db host task now spec exitCode logsRef logFiles stdout)
      (h : Parses x host spec.invocationId stdout exitCode host.elapsedMs logsRef host.containerId
        (.error e)) : Ends (.error e)
  | parsed {spec : RuntimeInvocationSpec} {exitCode : Int} {logsRef : Option String}
      {logFiles files : List File} {stdout : List UInt8} {result : RuntimeExecutionResult}
      (hc : Captured x db host task now spec exitCode logsRef logFiles stdout)
      (h : Parses x host spec.invocationId stdout exitCode host.elapsedMs logsRef host.containerId
        (.ok (result, files))) : Ends (.ok (result, logFiles ++ files))

end

section

variable {x : DockerRuntimeExecutor} {db : Database} {host : Host} {task : InvocationTask}
  {now : Time} {spec : RuntimeInvocationSpec} {exitCode : Int} {logsRef : Option String}
  {logFiles : List File} {r : Except PyException (RuntimeExecutionResult × List File)}

theorem Up.execute_raised (h : Up x db host task now spec) {e : PyException}
    (hw : host.wait spec.timeoutSeconds = .raised e) :
    x.execute db host task now =
      if e.isTimeoutError then .ok (x.buildTimeoutResult host spec) else .error e := by
  unfold DockerRuntimeExecutor.execute DockerRuntimeExecutor.executeContainer
  simp only [h.plan, h.client, h.package, h.input, h.run, hw]
  rfl

/-- What is left of `execute` once the container has exited. -/
theorem Up.execute_exited (h : Up x db host task now spec)
    (hw : host.wait spec.timeoutSeconds = .exited exitCode) :
    x.execute db host task now = host.stderr.bind fun stderr =>
      (x.writeLogs host spec.invocationId stderr).bind fun logs =>
        if host.oomKilled then
          .ok (.failed "MemoryLimitExceeded"
            s!"Runtime exceeded {spec.memoryLimitMb} MiB memory limit"
            (some host.elapsedMs) logs.1 host.containerId (some exitCode), logs.2)
        else host.stdout.bind fun stdout =>
          (x.parseRuntimeOutput host spec.invocationId stdout exitCode host.elapsedMs logs.1
            host.containerId).bind fun parsed => .ok (parsed.1, logs.2 ++ parsed.2) := by
  unfold DockerRuntimeExecutor.execute DockerRuntimeExecutor.executeContainer
  simp only [h.plan, h.client, h.package, h.input, h.run, hw]
  rfl

theorem Stopped.execute_eq (h : Stopped x db host task now spec exitCode logsRef logFiles) :
    x.execute db host task now =
      if host.oomKilled then
        .ok (.failed "MemoryLimitExceeded"
          s!"Runtime exceeded {spec.memoryLimitMb} MiB memory limit"
          (some host.elapsedMs) logsRef host.containerId (some exitCode), logFiles)
      else host.stdout.bind fun stdout =>
        (x.parseRuntimeOutput host spec.invocationId stdout exitCode host.elapsedMs logsRef
          host.containerId).bind fun parsed => .ok (parsed.1, logFiles ++ parsed.2) := by
  obtain ⟨stderr, hs, hl⟩ := h.logs
  rw [h.toUp.execute_exited h.wait, hs]
  simp only [Except.bind, hl]

theorem Ends.eq (h : Ends x db host task now r) : x.execute db host task now = r := by
  cases h with
  | late hp => simp only [DockerRuntimeExecutor.execute, hp]
  | notFound hp => simp only [DockerRuntimeExecutor.execute, hp]
  | client hp h =>
    unfold DockerRuntimeExecutor.execute DockerRuntimeExecutor.executeContainer
    simp only [hp, h]
    rfl
  | package hp hc h ht =>
    unfold DockerRuntimeExecutor.execute DockerRuntimeExecutor.executeContainer
    simp only [hp, hc, h, ht]
    rfl
  | input hp hc hx h =>
    unfold DockerRuntimeExecutor.execute DockerRuntimeExecutor.executeContainer
    simp only [hp, hc, hx, h]
    rfl
  | run hp hc hx hi h =>
    unfold DockerRuntimeExecutor.execute DockerRuntimeExecutor.executeContainer
    simp only [hp, hc, hx, hi, h]
    rfl
  | wait hu h ht => rw [hu.execute_raised h, ht, if_neg Bool.false_ne_true]
  | timeout hu h ht => rw [hu.execute_raised h, ht, if_pos rfl]
  | stderr hu hw h =>
    rw [hu.execute_exited hw, h]
    rfl
  | writeLogs hu hw hs h =>
    rw [hu.execute_exited hw, hs]
    simp only [Except.bind, h]
  | memory hs h hl => rw [hs.execute_eq, h, if_pos rfl, hl]
  | stdout hs hm h =>
    rw [hs.execute_eq, hm, if_neg Bool.false_ne_true, h]
    rfl
  | unparsed hc h =>
    rw [hc.toStopped.execute_eq, hc.memory, if_neg Bool.false_ne_true, hc.stdout]
    simp only [Except.bind, h.eq]
  | parsed hc h =>
    rw [hc.toStopped.execute_eq, hc.memory, if_neg Bool.false_ne_true, hc.stdout]
    simp only [Except.bind, h.eq]

/-- A container that has been started comes to an end that is listed. -/
theorem Up.ends (h : Up x db host task now spec) : ∃ r, Ends x db host task now r := by
  cases hw : host.wait spec.timeoutSeconds with
  | raised e =>
    cases ht : e.isTimeoutError with
    | false => exact ⟨_, .wait h hw ht⟩
    | true => exact ⟨_, .timeout h hw ht⟩
  | exited exitCode =>
    cases hs : host.stderr with
    | error e => exact ⟨_, .stderr h hw hs⟩
    | ok stderr =>
      cases hl : x.writeLogs host spec.invocationId stderr with
      | error e => exact ⟨_, .writeLogs h hw hs hl⟩
      | ok logs =>
        have hstopped : Stopped x db host task now spec exitCode logs.1 logs.2 :=
          ⟨h, hw, stderr, hs, hl⟩
        cases hm : host.oomKilled with
        | true => exact ⟨_, .memory hstopped hm rfl⟩
        | false =>
          cases ho : host.stdout with
          | error e => exact ⟨_, .stdout hstopped hm ho⟩
          | ok stdout =>
            have hcaptured : Captured x db host task now spec exitCode logs.1 logs.2 stdout :=
              ⟨hstopped, hm, ho⟩
            have hparse := parses_total x host spec.invocationId stdout exitCode host.elapsedMs
              logs.1 host.containerId
            cases hr : x.parseRuntimeOutput host spec.invocationId stdout exitCode host.elapsedMs
              logs.1 host.containerId with
            | error e =>
              rw [hr] at hparse
              exact ⟨_, .unparsed hcaptured hparse⟩
            | ok result =>
              rw [hr] at hparse
              exact ⟨_, .parsed hcaptured hparse⟩

/-- No end is left out. -/
theorem execute_ends (x : DockerRuntimeExecutor) (db : Database) (host : Host)
    (task : InvocationTask) (now : Time) :
    Ends x db host task now (x.execute db host task now) := by
  have hex : ∃ r, Ends x db host task now r := by
    cases hp : planExecution db task now with
    | finished result => exact ⟨_, .late hp⟩
    | raised e => exact ⟨_, .notFound hp⟩
    | container spec =>
      cases hc : host.client with
      | error e => exact ⟨_, .client hp hc⟩
      | ok u =>
        cases hx : host.packageExists (resolvePath x.workspaceRoot spec.packageUri) with
        | false => exact ⟨_, .package hp hc hx rfl⟩
        | true =>
          cases hi : host.writeInput with
          | error e => exact ⟨_, .input hp hc hx hi⟩
          | ok u =>
            cases hr : host.run (resolvePath x.workspaceRoot spec.packageUri) with
            | error e => exact ⟨_, .run hp hc hx hi hr⟩
            | ok u => exact Up.ends ⟨hp, hc, hx, hi, hr⟩
  obtain ⟨r, hr⟩ := hex
  rw [hr.eq]
  exact hr

end

end Serverless.Runtime
