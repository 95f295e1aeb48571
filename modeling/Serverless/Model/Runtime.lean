import Mathlib.Data.Int.Log
import Mathlib.Data.Rat.Floor
import Mathlib.Tactic.Linarith
import Serverless.Library.Paths
import Serverless.Library.Utf8
import Serverless.Model.Queue
import Serverless.Model.Retry

/-!
# Executing one task in a container

`DockerRuntimeExecutor` of `worker/app/runtime/docker_executor.py`: reading the clock,
loading the specification, running the container and turning what it printed into a
`RuntimeExecutionResult`. What Docker, the file system and the clock do in one execution
is a value of `Host`; `json.loads`, `json.dumps` and `repr` are a value of `PyLib`.
-/
namespace Serverless.Model

open Serverless.Library

/-- An exception: its class name, `str(exc)`, whether it is a `TimeoutError`, and the exceptions
that its cause, its context and its arguments hold. -/
inductive PyException where
  | mk (className message : PyStr) (isTimeout : Bool) (linked : List PyException)

namespace PyException

def className : PyException → PyStr
  | mk name _ _ _ => name

def message : PyException → PyStr
  | mk _ text _ _ => text

def of (className message : PyStr) : PyException := mk className message false []

/-- `str.lower` on one code point, as far as the needles here can tell. -/
def lower (p : CodePoint) : CodePoint := if 65 ≤ p.val ∧ p.val ≤ 90 then p + 32 else p

/-- `needle in haystack.lower()`. -/
def mentions (needle haystack : PyStr) : Bool := decide (needle <:+: haystack.map lower)

/- `is_timeout_error`: the exception or one it is linked to. -/
mutual

def isTimeoutError : PyException → Bool
  | mk name text isTimeout linked =>
    isTimeout || mentions "timeout" name || mentions "read timed out" text ||
      mentions "read timeout" text || anyTimeoutError linked

def anyTimeoutError : List PyException → Bool
  | [] => false
  | e :: linked => isTimeoutError e || anyTimeoutError linked

end

end PyException

/-- What `json.loads` ends in: a value, a `JSONDecodeError` with its `msg`, or another exception. -/
inductive Loaded where
  | value (v : JsonValue)
  | decodeError (msg : String)
  | raised (e : PyException)

/-- The parts of the Python library that the executor calls: `json.loads(text)`, and for values
that it gave, `json.dumps(value, separators=(",", ":"))` and `str(value)` where that is no string.
Neither of the two goes deeper than the decoder did, so neither raises a `RecursionError`. -/
structure PyLib where
  loads : List Char → Loaded
  dumps : JsonValue → List Char
  repr : JsonValue → String

namespace JsonValue

/-- `bool(value)`. -/
def truthy : JsonValue → Bool
  | .null => false
  | .bool b => b
  | .int n => n ≠ 0
  | .float q => q ≠ 0
  | .nan | .infinity _ => true
  | .str s => s ≠ []
  | .list items => !items.isEmpty
  | .dict items => !items.isEmpty

end JsonValue

/-- `str(value)`. -/
def PyLib.str (lib : PyLib) : JsonValue → PyStr
  | .str s => s
  | v => lib.repr v

/-- `str(envelope.get(key) or default)`. -/
def PyLib.textOr (lib : PyLib) (envelope : List (PyStr × JsonValue)) (key default : PyStr) :
    PyStr :=
  match envelope.lookup key with
  | none => default
  | some v => if v.truthy then lib.str v else default

structure RuntimeInvocationSpec where
  invocationId : UUID
  functionName : String
  functionVersion : Nat
  handler : String
  packageUri : String
  payload : JsonValue
  memoryLimitMb : Nat
  cpuLimit : ℚ
  timeoutSeconds : ℚ

/-- The `g` format of a number that is not negative: six significant digits. -/
def formatG (q : ℚ) : String :=
  if q ≤ 0 then "0"
  else
    let scaled (x : Int) := (roundHalfEven (q * 10 ^ (5 - x))).toNat
    let x := if scaled (Int.log 10 q) < 1000000 then Int.log 10 q else Int.log 10 q + 1
    let ds := Nat.toDigits 10 (scaled x)
    let trim (cs : List Char) := (cs.reverse.dropWhile (· = '0')).reverse
    let point (whole frac : List Char) := if trim frac = [] then whole else whole ++ '.' :: trim frac
    if x < -4 ∨ 6 ≤ x then
      let e := Nat.toDigits 10 x.natAbs
      String.ofList (point (ds.take 1) (ds.drop 1) ++ 'e' :: (if x < 0 then '-' else '+') ::
        (List.replicate (2 - e.length) '0' ++ e))
    else if x < 0 then
      String.ofList (point ['0'] (List.replicate (x.natAbs - 1) '0' ++ ds))
    else String.ofList (point (ds.take (x.toNat + 1)) (ds.drop (x.toNat + 1)))

/-- How `container.wait` ends. -/
inductive WaitOutcome where
  | exited (exitCode : Int)
  | raised (e : PyException)

/-- Everything outside the program that one execution meets, in the order it meets it.
`containers.run` is given the package path that it binds, and `wait` the timeout in seconds. -/
structure Host where
  client : Except PyException Unit
  packageExists : PosixPath → Bool
  writeInput : Except PyException Unit
  run : PosixPath → Except PyException Unit
  containerId : Option String
  wait : ℚ → WaitOutcome
  elapsedMs : Nat
  stderr : Except PyException (List UInt8)
  writeLogs : Except PyException Unit
  oomKilled : Bool
  stdout : Except PyException (List UInt8)
  writeResult : Except PyException Unit

abbrev File := PosixPath × List UInt8

structure DockerRuntimeExecutor where
  lib : PyLib
  workspaceRoot : PosixPath
  storageRoot : PosixPath
  maxInlineResultBytes : Nat
  maxLogBytes : Nat

/-- `storage_ref`, of the worker and of the API. -/
def storageRef (workspaceRoot path : PosixPath) : String :=
  match path.relativeTo workspaceRoot with
  | some q => q.str
  | none => path.str

/-- `resolve_path`, of the worker and of the API. -/
def resolvePath (workspaceRoot : PosixPath) (path : String) : PosixPath :=
  let p := PosixPath.parse path
  if p.isAbsolute then p else (workspaceRoot.join p).resolve

namespace DockerRuntimeExecutor

variable (x : DockerRuntimeExecutor)

def resultPath (invocationId : UUID) : PosixPath :=
  (x.storageRoot.join (.parse "results")).join (.parse (invocationId.str ++ ".json"))

def logPath (invocationId : UUID) : PosixPath :=
  (x.storageRoot.join (.parse "logs")).join (.parse (invocationId.str ++ ".stderr.log"))

/-- `build_success_result`, with the file it writes. -/
def buildSuccessResult (host : Host) (invocationId : UUID) (result : JsonValue) (durationMs : Int)
    (logsRef containerId : Option String) (exitCode : Int) :
    Except PyException (RuntimeExecutionResult × List File) :=
  let resultBytes := Utf8.encode (x.lib.dumps result)
  if resultBytes.length ≤ x.maxInlineResultBytes then
    .ok (.succeeded result (some durationMs) logsRef containerId exitCode, [])
  else
    match host.writeResult with
    | .error e => .error e
    | .ok _ =>
      .ok ({ status := .succeeded
             resultRef := some (storageRef x.workspaceRoot (x.resultPath invocationId))
             logsRef := logsRef
             containerId := containerId
             exitCode := some exitCode
             durationMs := some durationMs },
        [(x.resultPath invocationId, resultBytes)])

def parseRuntimeOutput (host : Host) (invocationId : UUID) (stdout : List UInt8) (exitCode : Int)
    (durationMs : Int) (logsRef containerId : Option String) :
    Except PyException (RuntimeExecutionResult × List File) :=
  let failed (errorType errorMessage : PyStr) :
      Except PyException (RuntimeExecutionResult × List File) :=
    .ok (.failed errorType errorMessage (some durationMs) logsRef containerId (some exitCode), [])
  let stdoutText := Text.strip (Utf8.decode stdout)
  if stdoutText = [] then
    failed "InvalidRuntimeOutput" s!"Runtime produced no JSON result; exit code {exitCode}"
  else
    match x.lib.loads stdoutText with
    | .raised e => .error e
    | .decodeError msg =>
      failed "InvalidRuntimeOutput" s!"Runtime stdout is not valid JSON: {msg}"
    | .value (.dict envelope) =>
      match envelope.lookup ↑"ok" with
      | some (.bool true) =>
        if exitCode = 0 then
          x.buildSuccessResult host invocationId ((envelope.lookup ↑"result").getD .null) durationMs
            logsRef containerId exitCode
        else failed "RuntimeExitError" s!"Runtime exited with code {exitCode}"
      | some (.bool false) =>
        failed (x.lib.textOr envelope "error_type" "RuntimeError")
          (x.lib.textOr envelope "error_message" s!"Runtime exited with code {exitCode}")
      | _ => failed "RuntimeExitError" s!"Runtime exited with code {exitCode}"
    | .value _ => failed "InvalidRuntimeOutput" "Runtime stdout JSON must be an object"

/-- `write_logs`: the reference, and the file if there is anything to write. -/
def writeLogs (host : Host) (invocationId : UUID) (logs : List UInt8) :
    Except PyException (Option String × List File) :=
  if logs = [] then .ok (none, [])
  else
    match host.writeLogs with
    | .error e => .error e
    | .ok _ =>
      .ok (some (storageRef x.workspaceRoot (x.logPath invocationId)),
        [(x.logPath invocationId, logs.take x.maxLogBytes)])

/-- `build_timeout_result`. Logs that cannot be read or written are left out: reading catches
every exception, and writing fails with an `OSError`, which is caught too. -/
def buildTimeoutResult (host : Host) (spec : RuntimeInvocationSpec) :
    RuntimeExecutionResult × List File :=
  let stderr := match host.stderr with
    | .ok logs => logs
    | .error _ => []
  let (logsRef, files) := match x.writeLogs host spec.invocationId stderr with
    | .ok written => written
    | .error _ => (none, [])
  let text := formatG spec.timeoutSeconds
  (.timedOut s!"Invocation exceeded {text}s timeout" (some host.elapsedMs) logsRef
    host.containerId, files)

def executeContainer (host : Host) (spec : RuntimeInvocationSpec) :
    Except PyException (RuntimeExecutionResult × List File) := do
  host.client
  let packagePath := resolvePath x.workspaceRoot spec.packageUri
  let text := packagePath.str
  if ¬ host.packageExists packagePath then
    throw (.of "FileNotFoundError" s!"Function package not found: {text}")
  host.writeInput
  host.run packagePath
  match host.wait spec.timeoutSeconds with
  | .raised e => if e.isTimeoutError then pure (x.buildTimeoutResult host spec) else throw e
  | .exited exitCode =>
    let stderr ← host.stderr
    let (logsRef, logFiles) ← x.writeLogs host spec.invocationId stderr
    if host.oomKilled then
      let limit := spec.memoryLimitMb
      pure (.failed "MemoryLimitExceeded" s!"Runtime exceeded {limit} MiB memory limit"
        (some host.elapsedMs) logsRef host.containerId (some exitCode), logFiles)
    else
      let stdout ← host.stdout
      let (result, files) ← x.parseRuntimeOutput host spec.invocationId stdout exitCode
        host.elapsedMs logsRef host.containerId
      pure (result, logFiles ++ files)

end DockerRuntimeExecutor

/-- `remaining_deadline_seconds`, as an exact number. -/
def remainingDeadlineSeconds (task : InvocationTask) (now : Time) : ℚ :=
  max 0 (((task.deadlineAt - now : Int) : ℚ) / 1000000)

namespace Database

/-- `load_invocation_spec`: the three rows joined by their keys. -/
def loadInvocationSpec (db : Database) (task : InvocationTask) (remainingSeconds : ℚ) :
    Except PyException RuntimeInvocationSpec :=
  let found := do
    let invocation ← db.invocations.get task.invocationId
    guard (invocation.functionVersionId = task.functionVersionId ∧
      invocation.ownerId = task.ownerId)
    let version ← db.versions.get invocation.functionVersionId
    let function ← db.functions.get version.functionId
    pure (invocation, version, function)
  match found with
  | none =>
    let text := task.invocationId.str
    .error (.of "RuntimeInvocationNotFoundError" s!"Runtime invocation not found: {text}")
  | some (invocation, version, function) =>
    .ok
      { invocationId := invocation.id
        functionName := function.name
        functionVersion := version.versionNumber
        handler := version.handler
        packageUri := version.packageUri
        payload := invocation.payloadInline
        memoryLimitMb := version.memoryLimitMb
        cpuLimit := version.cpuLimit
        timeoutSeconds := min (version.timeoutSeconds : ℚ) remainingSeconds }

end Database

/-- How `execute` goes on once it has read the clock and the rows. -/
inductive Plan where
  | finished (result : RuntimeExecutionResult)
  | raised (e : PyException)
  | container (spec : RuntimeInvocationSpec)

/-- The specification that `execute_container` is called with, if it is called. -/
def Plan.spec : Plan → Option RuntimeInvocationSpec
  | .finished _ | .raised _ => none
  | .container spec => some spec

theorem Plan.spec_some {plan : Plan} {spec : RuntimeInvocationSpec} (h : plan.spec = some spec) :
    plan = .container spec := by
  cases plan with
  | finished | raised => cases h
  | container spec' =>
    cases h
    rfl

/-- The part of `execute` before the container. -/
def planExecution (db : Database) (task : InvocationTask) (now : Time) : Plan :=
  let remainingSeconds := remainingDeadlineSeconds task now
  if remainingSeconds ≤ 0 then
    .finished (.timedOut "Invocation deadline exceeded before runtime start" (some 0))
  else
    match db.loadInvocationSpec task remainingSeconds with
    | .error e => .raised e
    | .ok spec => .container spec

/-- The rows and the clock reading behind the specification of a container. -/
structure PlannedFrom (db : Database) (task : InvocationTask) (now : Time)
    (spec : RuntimeInvocationSpec) (i : Invocation) (v : FunctionVersion) (f : Function) :
    Prop where
  invocation : db.invocations.get task.invocationId = some i
  pinned : i.functionVersionId = task.functionVersionId
  owner : i.ownerId = task.ownerId
  version : db.versions.get i.functionVersionId = some v
  function : db.functions.get v.functionId = some f
  early : now < task.deadlineAt
  package : spec.packageUri = v.packageUri
  timeout : spec.timeoutSeconds = min (v.timeoutSeconds : ℚ) (remainingDeadlineSeconds task now)

theorem remainingDeadlineSeconds_pos {task : InvocationTask} {now : Time} :
    0 < remainingDeadlineSeconds task now ↔ now < task.deadlineAt := by
  rw [remainingDeadlineSeconds, lt_max_iff, or_iff_right (lt_irrefl _),
    div_pos_iff_of_pos_right (by norm_num), Int.cast_pos, sub_pos]

/-- While there is time left, what remains is the difference, in seconds. -/
theorem remainingDeadlineSeconds_eq {task : InvocationTask} {now : Time}
    (h : now < task.deadlineAt) :
    1000000 * remainingDeadlineSeconds task now = (task.deadlineAt : ℚ) - now := by
  have hpos : (0 : ℚ) ≤ ((task.deadlineAt - now : Int) : ℚ) / 1000000 := by
    have hd : (0 : ℚ) ≤ ((task.deadlineAt - now : Int) : ℚ) := Int.cast_nonneg (sub_nonneg.mpr h.le)
    positivity
  rw [remainingDeadlineSeconds, max_eq_right hpos]
  push_cast
  ring

theorem planExecution_container {db : Database} {task : InvocationTask} {now : Time}
    {spec : RuntimeInvocationSpec} (h : planExecution db task now = .container spec) :
    ∃ i v f, PlannedFrom db task now spec i v f := by
  unfold planExecution at h
  dsimp only at h
  split at h
  · cases h
  rename_i hpos
  split at h
  · cases h
  rename_i loaded hload
  cases h
  unfold Database.loadInvocationSpec at hload
  dsimp only at hload
  split at hload
  · cases hload
  rename_i i v f hfound
  cases hload
  simp only [Option.bind_eq_bind, Option.bind_eq_some_iff, Option.pure_def, guard] at hfound
  obtain ⟨i', hi, u, hg, v', hv, f', hf, he⟩ := hfound
  cases he
  split at hg
  · rename_i hg'
    exact ⟨i, v, f, hi, hg'.1, hg'.2, hv, hf, remainingDeadlineSeconds_pos.mp (not_le.mp hpos),
      rfl, rfl⟩
  · cases hg

namespace PlannedFrom

variable {db : Database} {task : InvocationTask} {now : Time} {spec : RuntimeInvocationSpec}
  {i : Invocation} {v : FunctionVersion} {f : Function}

/-- The container may run for some time, not longer than its version allows and not past the
deadline. -/
theorem timeout_bounds (h : PlannedFrom db task now spec i v f) (hv : 1 ≤ v.timeoutSeconds) :
    0 < spec.timeoutSeconds ∧ spec.timeoutSeconds ≤ v.timeoutSeconds ∧
      now + 1000000 * spec.timeoutSeconds ≤ task.deadlineAt := by
  have hrem := remainingDeadlineSeconds_pos.mpr h.early
  have heq := remainingDeadlineSeconds_eq h.early
  have hversion : (0 : ℚ) < v.timeoutSeconds := by exact_mod_cast hv
  rw [h.timeout]
  refine ⟨lt_min hversion hrem, min_le_left _ _, ?_⟩
  have hle := min_le_right (v.timeoutSeconds : ℚ) (remainingDeadlineSeconds task now)
  linarith

end PlannedFrom

/-- `execute`: the result and the files it leaves, or the exception that leaves it. -/
def DockerRuntimeExecutor.execute (x : DockerRuntimeExecutor) (db : Database) (host : Host)
    (task : InvocationTask) (now : Time) : Except PyException (RuntimeExecutionResult × List File) :=
  match planExecution db task now with
  | .finished result => .ok (result, [])
  | .raised e => .error e
  | .container spec => x.executeContainer host spec

/-- What `process_tasks` passes on: the result, or a failed one made of the exception. -/
def recordedResult : Except PyException (RuntimeExecutionResult × List File) →
    RuntimeExecutionResult
  | .ok (result, _) => result
  | .error e => .failed e.className e.message none none none none

end Serverless.Model
