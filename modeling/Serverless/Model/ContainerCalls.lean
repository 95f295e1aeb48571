import Serverless.Library.Traced
import Serverless.Model.Runtime

/-!
# The calls that one execution makes

`execute_container` of `worker/app/runtime/docker_executor.py` once more, with every call to the
Docker client and to the file system in the order it is made, each exception handler with the
class it catches, and the `finally` block. `Host` fixes only what these calls return in the end.
-/
namespace Serverless.Model

open Serverless.Library

/-- An exception in flight, and whether `except OSError` catches it. -/
structure Fault where
  exception : PyException
  osError : Bool

/-- The objects that `extract_exit_code` and `was_oom_killed` tell apart. -/
inductive PyValue where
  | none
  | bool (b : Bool)
  | int (n : Int)
  | float (q : ℚ)
  | nan
  | infinity (negative : Bool)
  | str (s : String)
  | bytes (b : List UInt8)
  | dict (items : List (String × PyValue))
  | other

/-- A true object that is no text and cannot be used as bytes, such as a number, a list or a
generator: what slicing it and writing it as bytes raises (no `OSError`), and what decoding it
raises. -/
structure OpaqueLogs where
  written : PyException
  decoded : PyException

/-- What `container.logs` returns, as `read_logs` tells it apart. -/
inductive LogsValue where
  | bytes (b : List UInt8)
  | str (text : List Char)
  | falsy
  | other (object : OpaqueLogs)

/-- What `read_logs` returns: bytes, or the object as it is. -/
abbrev ReadLogs := Except OpaqueLogs (List UInt8)

/-- What `containers.run` returns when that is not `None`; `id` is absent on other objects. -/
structure Container where
  id : Option String

/-- Everything that the Docker client, the file system, the clock and `int` do in one execution.
File operations fail with an `OSError`. -/
structure Docker where
  client : Except Fault Unit
  packageExists : PosixPath → Bool
  writeInput : Except Fault Unit
  run : PosixPath → Except Fault (Option Container)
  wait : ℚ → Except Fault PyValue
  elapsedMs : Nat
  kill : Except Fault Unit
  stderr : Except Fault LogsValue
  stdout : Except Fault LogsValue
  reload : Except Fault PyValue
  remove : Except Fault Unit
  writeLogs : Except PyException Unit
  writeResult : Except PyException Unit
  unlink : Except PyException Unit
  intOf : PyValue → Except PyException Int

/-- The calls to the outside. -/
inductive ContainerCall where
  | fromEnv
  | writeInput (path : PosixPath)
  | run (packagePath : PosixPath)
  | wait (timeout : ℚ)
  | kill
  | logs (stdout stderr : Bool)
  | reload
  | remove (force : Bool)
  | write (file : File)
  | unlink (path : PosixPath) (missingOk : Bool)

namespace ContainerCall

def isRemove : ContainerCall → Bool
  | remove _ => true
  | _ => false

def isUnlink : ContainerCall → Bool
  | unlink _ _ => true
  | _ => false

end ContainerCall

abbrev Execution := Traced ContainerCall Fault

/-- The outcome of a file operation. -/
def asOSError (outcome : Except PyException Unit) : Except Fault Unit :=
  outcome.mapError fun e => ⟨e, true⟩

/-- An exception that is no `OSError`. -/
def Fault.of (className message : String) : Fault := ⟨.of className message, false⟩

/-- `extract_exit_code`; `int` is asked for texts only. -/
def extractExitCode (d : Docker) (waitResult : PyValue) : Except PyException Int :=
  let value := match waitResult with
    | .dict items => (items.lookup ↑"StatusCode").getD (.int 1)
    | result => result
  match value with
  | .str _ | .bytes _ => d.intOf value
  | .bool b => .ok (if b then 1 else 0)
  | .int n => .ok n
  | .float q => .ok (if 0 ≤ q then ⌊q⌋ else ⌈q⌉)
  | .nan => .error (.of "ValueError" "cannot convert float NaN to integer")
  | .infinity _ => .error (.of "OverflowError" "cannot convert float infinity to integer")
  | _ => .ok 1

/-- `read_logs`, once `container.logs` has returned. -/
def readLogs : LogsValue → ReadLogs
  | .bytes b => .ok b
  | .str text => .ok (Utf8.encode text)
  | .falsy => .ok []
  | .other object => .error object

/-- The flag that `was_oom_killed` reads from the attributes of the container. -/
def oomKilledFlag : PyValue → Except Fault Bool
  | .dict attrs =>
    match (attrs.lookup ↑"State").getD (.dict []) with
    | .dict state =>
      match state.lookup ↑"OOMKilled" with
      | some (.bool b) => .ok b
      | _ => .ok false
    | _ => .error (.of "AttributeError" "object has no attribute 'get'")
  | _ => .error (.of "AttributeError" "object has no attribute 'get'")

/-- `except Exception`. -/
def catchAll (_ : Fault) : Bool := true

namespace DockerRuntimeExecutor

variable (x : DockerRuntimeExecutor) (d : Docker)

def inputPath (invocationId : UUID) : PosixPath :=
  (x.storageRoot.join (.parse "inputs")).join (.parse (invocationId.str ++ ".json"))

/-- The host that the execution amounts to, as far as it reads logs and writes files. -/
def hostOf (container : Container) : Host where
  client := .ok ()
  packageExists := d.packageExists
  writeInput := .ok ()
  run := fun _ => .ok ()
  containerId := container.id
  wait := fun t => match d.wait t with
    | .error f => .raised f.exception
    | .ok value => .exited ((extractExitCode d value).toOption.getD 0)
  elapsedMs := d.elapsedMs
  stderr := (d.stderr.mapError Fault.exception).bind fun logs =>
    (readLogs logs).mapError OpaqueLogs.written
  writeLogs := d.writeLogs
  oomKilled := ((d.reload.bind oomKilledFlag).toOption).getD false
  stdout := (d.stdout.mapError Fault.exception).bind fun logs =>
    (readLogs logs).mapError OpaqueLogs.decoded
  writeResult := d.writeResult

def readStderr : Execution ReadLogs := do
  let logs ← Traced.perform (.logs false true) d.stderr
  pure (readLogs logs)

def readStdout : Execution ReadLogs := do
  let logs ← Traced.perform (.logs true false) d.stdout
  pure (readLogs logs)

/-- `write_logs`. With an object that is no bytes it gets as far as making the directory, which
may fail like a write, and the file is not opened. -/
def storeLogs (invocationId : UUID) : ReadLogs → Execution (Option String)
  | .ok logs =>
    if logs = [] then pure none
    else do
      Traced.perform (.write (x.logPath invocationId, logs.take x.maxLogBytes)) (asOSError d.writeLogs)
      pure (some (storageRef x.workspaceRoot (x.logPath invocationId)))
  | .error object => ⟨[], (asOSError d.writeLogs).bind fun _ => .error ⟨object.written, false⟩⟩

/-- `was_oom_killed`. -/
def wasOomKilled : Execution Bool :=
  Traced.handle
    (do
      let attrs ← Traced.perform .reload d.reload
      ⟨[], oomKilledFlag attrs⟩)
    catchAll (fun _ => pure false)

/-- `build_timeout_result`, handler by handler. -/
def timeoutResult (spec : RuntimeInvocationSpec) (container : Container) :
    Execution RuntimeExecutionResult := do
  Traced.handle (Traced.perform .kill d.kill) catchAll (fun _ => pure ())
  let stderr ← Traced.handle (readStderr d) catchAll (fun _ => pure (.ok []))
  let logsRef ← Traced.handle (x.storeLogs d spec.invocationId stderr) (·.osError) (fun _ => pure none)
  let text := formatG spec.timeoutSeconds
  pure (.timedOut s!"Invocation exceeded {text}s timeout" (some d.elapsedMs) logsRef container.id)

/-- `parse_runtime_output`: only bytes can be decoded, and a large result is written before it is
returned by reference. -/
def parsedOutput (spec : RuntimeInvocationSpec) (container : Container) (exitCode : Int)
    (logsRef : Option String) : ReadLogs → Execution RuntimeExecutionResult
  | .error object => Traced.raise ⟨object.decoded, false⟩
  | .ok stdout =>
    match x.parseRuntimeOutput { hostOf d container with writeResult := .ok () } spec.invocationId stdout
        exitCode d.elapsedMs logsRef container.id with
    | .error e => Traced.raise ⟨e, false⟩
    | .ok (result, []) => pure result
    | .ok (result, file :: _) => do
      Traced.perform (.write file) (asOSError d.writeResult)
      pure result

/-- What follows when `container.wait` has returned. -/
def exitedResult (spec : RuntimeInvocationSpec) (container : Container) (waitResult : PyValue) :
    Execution RuntimeExecutionResult := do
  let exitCode ← ⟨[], (extractExitCode d waitResult).mapError fun e => ⟨e, false⟩⟩
  let stderr ← readStderr d
  let logsRef ← x.storeLogs d spec.invocationId stderr
  let oomKilled ← wasOomKilled d
  if oomKilled then
    let limit := spec.memoryLimitMb
    pure (.failed "MemoryLimitExceeded" s!"Runtime exceeded {limit} MiB memory limit"
      (some d.elapsedMs) logsRef container.id (some exitCode))
  else do
    let stdout ← readStdout d
    x.parsedOutput d spec container exitCode logsRef stdout

/-- The body of the `try` once `containers.run` has returned. A `return` in the handler of
`container.wait` ends the body. -/
def useContainer (spec : RuntimeInvocationSpec) :
    Option Container → Execution RuntimeExecutionResult
  | none => Traced.raise (.of "AttributeError" "'NoneType' object has no attribute 'wait'")
  | some container =>
    match d.wait spec.timeoutSeconds with
    | .ok waitResult => do
      Traced.perform (.wait spec.timeoutSeconds) (.ok ())
      x.exitedResult d spec container waitResult
    | .error f =>
      if f.exception.isTimeoutError then do
        Traced.perform (.wait spec.timeoutSeconds) (.ok ())
        x.timeoutResult d spec container
      else Traced.perform (.wait spec.timeoutSeconds) (.error f)

/-- The body of the `try`. -/
def tryBody (spec : RuntimeInvocationSpec) (packagePath : PosixPath) :
    Execution RuntimeExecutionResult := do
  let container ← Traced.perform (.run packagePath) (d.run packagePath)
  x.useContainer d spec container

/-- `remove_container`. -/
def removeContainer : Execution Unit :=
  Traced.handle (Traced.perform (.remove true) d.remove) catchAll (fun _ => pure ())

/-- `remove_input`. -/
def removeInput (spec : RuntimeInvocationSpec) : Execution Unit :=
  Traced.handle
    (Traced.perform (.unlink (x.inputPath spec.invocationId) true) (asOSError d.unlink))
    (·.osError) (fun _ => pure ())

/-- The `finally` block; `container` is what the variable holds then. -/
def cleanup (spec : RuntimeInvocationSpec) (container : Option Container) : Execution Unit := do
  if container.isSome then removeContainer d else pure ()
  x.removeInput d spec

/-- `execute_container` with its calls. -/
def executeContainerCalls (spec : RuntimeInvocationSpec) : Execution RuntimeExecutionResult := do
  Traced.perform .fromEnv d.client
  let packagePath := resolvePath x.workspaceRoot spec.packageUri
  let text := packagePath.str
  if ¬ d.packageExists packagePath then
    Traced.raise ⟨.of "FileNotFoundError" s!"Function package not found: {text}", true⟩
  else do
    Traced.perform (.writeInput (x.inputPath spec.invocationId)) d.writeInput
    Traced.ensure (x.tryBody d spec packagePath)
      (x.cleanup d spec (d.run packagePath).toOption.join)

/-- `execute`, from its plan on. -/
def executeCalls : Plan → Execution RuntimeExecutionResult
  | .finished result => pure result
  | .raised e => Traced.raise ⟨e, false⟩
  | .container spec => x.executeContainerCalls d spec

/-- What a call leaves under a path; `none` is no file. `input` is the text of the input file, and
`left` what a write that fails leaves behind. -/
def leaves (input left : List UInt8) (invocationId : UUID) :
    ContainerCall → Option (PosixPath × Option (List UInt8))
  | .writeInput path => some (path, some (if d.writeInput.toBool then input else left))
  | .write (path, contents) =>
    let outcome := if path = x.logPath invocationId then d.writeLogs else d.writeResult
    some (path, some (if outcome.toBool then contents else left))
  | .unlink path _ => if d.unlink.toBool then some (path, none) else none
  | .fromEnv | .run _ | .wait _ | .kill | .logs _ _ | .reload | .remove _ => none

/-- The files after one call. -/
def applyCall (input left : List UInt8) (invocationId : UUID) (files : Files (List UInt8))
    (call : ContainerCall) : Files (List UInt8) :=
  match x.leaves d input left invocationId call with
  | none => files
  | some (path, none) => files.remove path
  | some (path, some contents) => files.write path contents

/-- The files after the calls of an execution. -/
def applyCalls (input left : List UInt8) (invocationId : UUID) (files : Files (List UInt8))
    (calls : List ContainerCall) : Files (List UInt8) :=
  calls.foldl (x.applyCall d input left invocationId) files

end DockerRuntimeExecutor

/-- What the container has printed on stderr, as far as it can be read as bytes. -/
def Docker.stderrBytes (d : Docker) : List UInt8 :=
  (d.stderr.toOption.bind fun logs => (readLogs logs).toOption).getD []

/-- What `process_tasks` makes of an execution: its result, or a failed one. -/
def processedResult (execution : Execution RuntimeExecutionResult) : RuntimeExecutionResult :=
  match execution.outcome with
  | .ok result => result
  | .error f => .failed f.exception.className f.exception.message none none none none

end Serverless.Model
