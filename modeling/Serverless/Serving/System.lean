import Serverless.Ledger.Life
import Serverless.Logs.Survival
import Serverless.Model.RuntimeInput

/-!
# Deployed functions

The runs of attempts in which the containers do what the runtime image does: they run the runner on
the input file of their execution, with the package of their version. What the packages do is a
parameter, and may differ from one execution to the next. A package is not confined to its handler: it
may end the process itself, or write to the standard output past the runner.
-/
namespace Serverless.Serving

open Serverless.Library Serverless.Model Serverless.Runtime

/-- The packages there are: the code that may run under a package path, whose handlers return values
that come through JSON unchanged, and the outputs that a package leaves when it goes past the runner. -/
structure Deployed where
  F : Json.Format
  py : Interpreter
  repr : JsonValue → String
  packages : PosixPath → UserCode → Prop
  writes : PosixPath → List UInt8 → Prop
  returns : ∀ {path code}, packages path code → ∀ {moduleName functionName event context value},
    (code moduleName functionName event context).outcome = .returned value → Json.Carried F value

namespace Deployed

variable (p : Deployed)

/-- A package at this path may answer such a call of the handler with this value. -/
def Answers (path : PosixPath) (handler : String) (event : JsonValue) (context : RuntimeContext)
    (value : JsonValue) : Prop :=
  ∃ code moduleName functionName, p.packages path code ∧
    rsplitHandler handler = some (moduleName, functionName) ∧
    (code moduleName functionName event context).outcome = .returned value

/-- A package at this path may write an envelope with this value itself. -/
def Claims (path : PosixPath) (value : JsonValue) : Prop :=
  ∃ stdout envelope, p.writes path stdout ∧
    (Json.pyLib p.F p.repr).loads (outputText stdout) = .value (.dict envelope) ∧
    value = (envelope.lookup ↑"result").getD .null

/-- The runner in the container, on this input. -/
def ran (code : UserCode) (spec : RuntimeInvocationSpec) (packageIsDir : Bool)
    (input : List UInt8) : RunnerOutput :=
  runnerMain p.F (p.py.readAndCall p.F code (spec.buildEnvironment packageIsDir) input)

end Deployed

/-- The container runs the runner on the input that the execution has written. If it exits with zero
and its output can be read, either the runner has come to its end or the package has gone past it. -/
structure RunsRunner (p : Deployed) (x : DockerRuntimeExecutor) (spec : RuntimeInvocationSpec)
    (d : Docker) (input : List UInt8) : Prop where
  reads : input = spec.runtimeInput p.F
  ended : ∀ v out stdout, d.wait spec.timeoutSeconds = .ok v → extractExitCode d v = .ok 0 →
    d.stdout = .ok out → readLogs out = .ok stdout →
      p.writes (packagePathOf x spec) stdout ∨
      ∃ code packageIsDir, p.packages (packagePathOf x spec) code ∧
        stdout = Utf8.encode (p.ran code spec packageIsDir input).stdout ∧
        (p.ran code spec packageIsDir input).exitCode = 0

/-- The limits of a version are in columns of four-byte integers. -/
def FitsLimits (v : FunctionVersion) : Prop :=
  FitsInteger v.memoryLimitMb ∧ FitsInteger v.timeoutSeconds

instance (v : FunctionVersion) : Decidable (FitsLimits v) := inferInstanceAs (Decidable (_ ∧ _))

/-- Payloads come through JSON unchanged, and containers run the runner. -/
def Hosted (p : Deployed) (x : DockerRuntimeExecutor) (s : Logs.State) : Logs.Event → Prop
  | .call (.createInvocation request _ _ _) => Json.Carried p.F request.payload
  | .call _ | .plan .. | .finish .. => True
  | .run attemptId d input _ => (∀ v ∈ s.ledger.db.versions, FitsLimits v) ∧
      ∀ held spec, s.jobs attemptId = some (.planned held (.container spec)) → RunsRunner p x spec d input

/-! ## The result of an execution -/

/-- A value as it is recorded: inline, or, if it is too large, by a reference to its file. -/
def RecordedAs (x : DockerRuntimeExecutor) (invocationId : UUID) (value inline : JsonValue)
    (ref : Option String) : Prop :=
  if (Utf8.encode (x.lib.dumps value)).length ≤ x.maxInlineResultBytes then inline = value ∧ ref = none
  else inline = .null ∧ ref = some (storageRef x.workspaceRoot (x.resultPath invocationId))

variable {p : Deployed} {x : DockerRuntimeExecutor} {d : Docker} {spec : RuntimeInvocationSpec}
  {result : RuntimeExecutionResult}

theorem buildSuccessResult_recorded {host : Host} {id : UUID} {value : JsonValue} {durationMs : Int}
    {logsRef containerId : Option String} {exitCode : Int} {files : List File}
    (h : x.buildSuccessResult host id value durationMs logsRef containerId exitCode = .ok (result, files)) :
    RecordedAs x id value result.resultInline result.resultRef := by
  unfold DockerRuntimeExecutor.buildSuccessResult at h
  unfold RecordedAs
  dsimp only at h
  split at h
  · rename_i hsmall
    cases h
    rw [if_pos hsmall]
    exact ⟨rfl, rfl⟩
  · rename_i hlarge
    rw [if_neg hlarge]
    split at h
    · cases h
    · cases h
      exact ⟨rfl, rfl⟩

/-- A container has exited with zero, and its output is this envelope. -/
structure Printed (x : DockerRuntimeExecutor) (d : Docker) (spec : RuntimeInvocationSpec) (v : PyValue)
    (stdout : List UInt8) (envelope : List (PyStr × JsonValue)) : Prop where
  wait : d.wait spec.timeoutSeconds = .ok v
  exitCode : extractExitCode d v = .ok 0
  read : ∃ out, d.stdout = .ok out ∧ readLogs out = .ok stdout
  loads : x.lib.loads (outputText stdout) = .value (.dict envelope)

/-- A success is read off an envelope. -/
structure Succeeded (x : DockerRuntimeExecutor) (d : Docker) (spec : RuntimeInvocationSpec)
    (result : RuntimeExecutionResult) (v : PyValue) (stdout : List UInt8)
    (envelope : List (PyStr × JsonValue)) : Prop extends Printed x d spec v stdout envelope where
  recorded : RecordedAs x spec.invocationId ((envelope.lookup ↑"result").getD .null) result.resultInline
    result.resultRef

theorem parses_succeeded {host : Host} {id : UUID} {stdout : List UInt8} {exitCode durationMs : Int}
    {logsRef containerId : Option String} {files : List File}
    (h : x.parseRuntimeOutput host id stdout exitCode durationMs logsRef containerId = .ok (result, files))
    (hs : result.status = .succeeded) :
    exitCode = 0 ∧ ∃ envelope, x.lib.loads (outputText stdout) = .value (.dict envelope) ∧
      RecordedAs x id ((envelope.lookup ↑"result").getD .null) result.resultInline result.resultRef := by
  have hparses := parses_total x host id stdout exitCode durationMs logsRef containerId
  rw [h] at hparses
  generalize hr : Except.ok (result, files) = r at hparses
  cases hparses with
  | empty | invalid | notObject | reported | exit =>
    cases hr
    cases hs
  | raised => cases hr
  | succeeded ht hl hok hexit => exact ⟨hexit, _, hl, buildSuccessResult_recorded hr.symm⟩

theorem readStdout_returns {stdout : ReadLogs}
    (h : (DockerRuntimeExecutor.readStdout d).outcome = .ok stdout) :
    ∃ out, d.stdout = .ok out ∧ readLogs out = stdout := by
  rw [readStdout_outcome] at h
  cases hd : d.stdout with
  | error f => simp [hd, Except.map] at h
  | ok out =>
    simp only [hd, Except.map, Except.ok.injEq] at h
    exact ⟨out, rfl, h⟩

theorem exitedResult_succeeded {container : Container} {v : PyValue}
    (hwait : d.wait spec.timeoutSeconds = .ok v)
    (h : (x.exitedResult d spec container v).outcome = .ok result) (hs : result.status = .succeeded) :
    ∃ stdout envelope, Succeeded x d spec result v stdout envelope := by
  unfold DockerRuntimeExecutor.exitedResult at h
  obtain ⟨exitCode, hcode, h, -⟩ := Traced.outcome_bind h
  obtain ⟨stderr, -, h, -⟩ := Traced.outcome_bind h
  obtain ⟨logsRef, -, h, -⟩ := Traced.outcome_bind h
  obtain ⟨oomKilled, -, h, -⟩ := Traced.outcome_bind h
  split at h
  · cases h
    cases hs
  obtain ⟨read, hout, h, -⟩ := Traced.outcome_bind h
  obtain ⟨out, hd, hread⟩ := readStdout_returns hout
  cases read with
  | error object => cases h
  | ok stdout =>
    have hparse : ∃ files, x.parseRuntimeOutput
        { DockerRuntimeExecutor.hostOf d container with writeResult := .ok () } spec.invocationId
        stdout exitCode d.elapsedMs logsRef container.id = .ok (result, files) := by
      rw [DockerRuntimeExecutor.parsedOutput] at h
      split at h
      · cases h
      · rename_i hparse
        cases h
        exact ⟨_, hparse⟩
      · rename_i hparse
        obtain ⟨u, -, h, -⟩ := Traced.outcome_bind h
        cases h
        exact ⟨_, hparse⟩
    obtain ⟨files, hparse⟩ := hparse
    obtain ⟨rfl, envelope, hloads, hrecorded⟩ := parses_succeeded hparse hs
    refine ⟨stdout, envelope, ⟨hwait, ?_, ⟨out, hd, hread⟩, hloads⟩, hrecorded⟩
    cases hextract : extractExitCode d v with
    | error e => simp [hextract, Except.mapError] at hcode
    | ok n =>
      simp only [hextract, Except.mapError, Except.ok.injEq] at hcode
      rw [hcode]

theorem executeContainerCalls_succeeded (h : (x.executeContainerCalls d spec).outcome = .ok result)
    (hs : result.status = .succeeded) :
    ∃ v stdout envelope, Succeeded x d spec result v stdout envelope := by
  unfold DockerRuntimeExecutor.executeContainerCalls at h
  obtain ⟨u, -, h, -⟩ := Traced.outcome_bind h
  dsimp only at h
  split at h
  · cases h
  obtain ⟨u, -, h, -⟩ := Traced.outcome_bind h
  rw [cleanup_eq, Traced.ensure_outcome rfl] at h
  unfold DockerRuntimeExecutor.tryBody at h
  obtain ⟨container, -, h, -⟩ := Traced.outcome_bind h
  cases container with
  | none => cases h
  | some container =>
    unfold DockerRuntimeExecutor.useContainer at h
    dsimp only at h
    split at h
    · rename_i v hwait
      obtain ⟨u, -, h, -⟩ := Traced.outcome_bind h
      exact ⟨v, exitedResult_succeeded hwait h hs⟩
    · split at h
      · obtain ⟨u, -, h, -⟩ := Traced.outcome_bind h
        rw [(timeoutResult_returned h).1] at hs
        cases hs
      · cases h

/-! ## What the worker reads from the runner -/

/-- Whatever the package prints at its import, an envelope that the worker decodes is the one that
the runner has printed. -/
theorem loads_runnerMain {F : Json.Format} {m : UserModule} {repr : JsonValue → String}
    (hlib : x.lib = Json.pyLib F repr) {value : JsonValue} (hm : m.outcome = .returned value)
    (hvalue : Json.Carried F value) {envelope : List (PyStr × JsonValue)}
    (h : x.lib.loads (outputText (Utf8.encode (runnerMain F m).stdout)) = .value (.dict envelope)) :
    envelope.lookup ↑"result" = some value := by
  have hwell : m.outcome.WellFormed F := by
    rw [hm]
    exact hvalue
  by_cases hblank : Text.Blank m.importText
  · rw [loads_outputText_ok hlib (loads_clean hwell hblank), hm] at h
    cases h
    simp [List.lookup_cons]
  · obtain ⟨e, he⟩ := loads_noisy hwell hblank
    rw [loads_outputText_error hlib he] at h
    cases e <;> cases h

/-- A runner that exits with zero has called the handler, which has returned. -/
theorem ran_returned {code : UserCode} {packageIsDir : Bool} (hcarried : spec.Carried p.F)
    (h : (p.ran code spec packageIsDir (spec.runtimeInput p.F)).exitCode = 0) :
    ∃ moduleName functionName value, rsplitHandler spec.handler = some (moduleName, functionName) ∧
      (code moduleName functionName spec.event spec.context).outcome = .returned value ∧
      p.ran code spec packageIsDir (spec.runtimeInput p.F) =
        runnerMain p.F (code moduleName functionName spec.event spec.context) := by
  unfold Deployed.ran at h ⊢
  rw [readAndCall_runtimeInput p.py code packageIsDir hcarried] at h ⊢
  unfold Interpreter.callHandler at h ⊢
  split at h
  · cases h
  · rename_i moduleName functionName hsplit
    cases hm : (code moduleName functionName spec.event spec.context).outcome with
    | raised errorType errorMessage text =>
      simp only [runnerMain, hm] at h
      cases h
    | returned value => exact ⟨moduleName, functionName, value, hsplit, hm, rfl⟩

/-- **What the worker reads off the envelope is what the handler has returned for the payload**, or
what the package has written itself. -/
theorem RunsRunner.prints {input : List UInt8} (h : RunsRunner p x spec d input)
    (hlib : x.lib = Json.pyLib p.F p.repr) (hcarried : spec.Carried p.F) {v : PyValue}
    {stdout : List UInt8} {envelope : List (PyStr × JsonValue)}
    (hprinted : Printed x d spec v stdout envelope) :
    p.Answers (packagePathOf x spec) spec.handler spec.event spec.context
        ((envelope.lookup ↑"result").getD .null) ∨
      p.Claims (packagePathOf x spec) ((envelope.lookup ↑"result").getD .null) := by
  obtain ⟨out, hd, hread⟩ := hprinted.read
  have hloads := hprinted.loads
  rcases h.ended v out stdout hprinted.wait hprinted.exitCode hd hread with
    hwrites | ⟨code, packageIsDir, hcode, hstdout, hexit⟩
  · rw [hlib] at hloads
    exact .inr ⟨stdout, envelope, hwrites, hloads, rfl⟩
  · rw [h.reads] at hstdout hexit
    obtain ⟨moduleName, functionName, value, hsplit, hreturned, hran⟩ := ran_returned hcarried hexit
    rw [hstdout, hran] at hloads
    rw [loads_runnerMain hlib hreturned (p.returns hcode hreturned) hloads, Option.getD_some]
    exact .inl ⟨code, moduleName, functionName, hcode, hsplit, hreturned⟩

/-- A success is an answer or a claim, recorded. -/
theorem RunsRunner.answers {input : List UInt8} (h : RunsRunner p x spec d input)
    (hlib : x.lib = Json.pyLib p.F p.repr) (hcarried : spec.Carried p.F)
    (hrun : (x.executeContainerCalls d spec).outcome = .ok result) (hs : result.status = .succeeded) :
    ∃ value, (p.Answers (packagePathOf x spec) spec.handler spec.event spec.context value ∨
        p.Claims (packagePathOf x spec) value) ∧
      RecordedAs x spec.invocationId value result.resultInline result.resultRef := by
  obtain ⟨v, stdout, envelope, hsucceeded⟩ := executeContainerCalls_succeeded hrun hs
  exact ⟨_, h.prints hlib hcarried hsucceeded.toPrinted, hsucceeded.recorded⟩

end Serverless.Serving
