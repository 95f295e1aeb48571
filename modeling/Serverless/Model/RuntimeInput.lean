import Serverless.Model.JsonRoundTrip
import Serverless.Model.Runner

/-!
# The message that the runner reads

What `write_runtime_input` and `build_environment` of `worker/app/runtime/docker_executor.py` hand to
the container, and how `main` of `runtime/python311/runner.py` comes from there to the call of the
handler. The package is a parameter: what it prints and how it ends when the handler that is named is
imported and called. So are the texts of the interpreter about its own exceptions.
-/
namespace Serverless.Model

open Serverless.Library

/-- The dataclass of the runner, which does not check the types of its fields. -/
structure RuntimeContext where
  invocationId : JsonValue
  functionName : JsonValue
  functionVersion : JsonValue
  deadlineMs : JsonValue
  memoryLimitMb : JsonValue

namespace RuntimeContext

def names : List PyStr :=
  ["invocation_id", "function_name", "function_version", "deadline_ms", "memory_limit_mb"]

def items (c : RuntimeContext) : List (PyStr × JsonValue) :=
  [("invocation_id", c.invocationId), ("function_name", c.functionName),
    ("function_version", c.functionVersion), ("deadline_ms", c.deadlineMs),
    ("memory_limit_mb", c.memoryLimitMb)]

/-- `RuntimeContext(**kwargs)`; unexpected and missing arguments raise a `TypeError`. -/
def ofKwargs (kwargs : List (PyStr × JsonValue)) : Option RuntimeContext := do
  guard (∀ p ∈ kwargs, p.1 ∈ names)
  let invocationId ← kwargs.lookup ↑"invocation_id"
  let functionName ← kwargs.lookup ↑"function_name"
  let functionVersion ← kwargs.lookup ↑"function_version"
  let deadlineMs ← kwargs.lookup ↑"deadline_ms"
  let memoryLimitMb ← kwargs.lookup ↑"memory_limit_mb"
  pure ⟨invocationId, functionName, functionVersion, deadlineMs, memoryLimitMb⟩

theorem ofKwargs_items (c : RuntimeContext) : ofKwargs c.items = some c := by
  simp [ofKwargs, items, names, guard, List.lookup_cons]

end RuntimeContext

/-- `payload if payload is not None else {}`. -/
def eventOf : JsonValue → JsonValue
  | .null => .dict []
  | payload => payload

namespace RuntimeInvocationSpec

variable (spec : RuntimeInvocationSpec)

def event : JsonValue := eventOf spec.payload

/-- `int(spec.timeout_seconds * 1000)`. -/
def deadlineMs : Int :=
  if 0 ≤ spec.timeoutSeconds then ⌊spec.timeoutSeconds * 1000⌋ else ⌈spec.timeoutSeconds * 1000⌉

def context : RuntimeContext where
  invocationId := .str spec.invocationId.str
  functionName := .str spec.functionName
  functionVersion := .str (toString spec.functionVersion)
  deadlineMs := .int spec.deadlineMs
  memoryLimitMb := .int spec.memoryLimitMb

def buildInputMessage : JsonValue :=
  .dict [("event", spec.event), ("context", .dict spec.context.items)]

/-- The bytes that `write_runtime_input` writes. -/
def runtimeInput (F : Json.Format) : List UInt8 :=
  Utf8.encode (Json.dumps F [] spec.buildInputMessage)

/-- `build_environment`. -/
def buildEnvironment (packageIsDir : Bool) : List (String × String) :=
  [("HANDLER", spec.handler),
    ("PYTHONPATH", if packageIsDir then "/var/task" else "/var/task/function.zip")]

end RuntimeInvocationSpec

/-- What importing a module of a package and calling one of its functions comes to. -/
abbrev UserCode := String → String → JsonValue → RuntimeContext → UserModule

/-- What the interpreter says about the exceptions that it raises in the runner itself. -/
structure Interpreter where
  unicodeDecodeError : List UInt8 → String
  jsonDecodeError : List Char → String
  attributeError : JsonValue → String
  typeError : JsonValue → String
  traceback : PyStr → PyStr → List Char

/-- `handler_path.rsplit(".", 1)`, where that has two parts. -/
def rsplitHandler (handlerPath : String) : Option (String × String) :=
  let cs := handlerPath.toList
  if '.' ∈ cs then
    some (String.ofList ((cs.reverse.dropWhile (· ≠ '.')).drop 1).reverse,
      String.ofList (cs.reverse.takeWhile (· ≠ '.')).reverse)
  else none

namespace Interpreter

variable (py : Interpreter)

/-- An exception that is raised before the package is imported. -/
def early (errorType errorMessage : PyStr) : UserModule :=
  ⟨[], [], .raised errorType errorMessage (py.traceback errorType errorMessage)⟩

/-- `load_handler`, and the call of the handler. -/
def callHandler (code : UserCode) (handlerPath : String) (event : JsonValue)
    (context : RuntimeContext) : UserModule :=
  match rsplitHandler handlerPath with
  | none => py.early "ValueError" "not enough values to unpack (expected 2, got 1)"
  | some (moduleName, functionName) => code moduleName functionName event context

/-- The body of the `try` of `main`, as the module that `runnerMain` reports on. -/
def readAndCall (F : Json.Format) (code : UserCode) (environment : List (String × String))
    (stdin : List UInt8) : UserModule :=
  let handlerPath := (environment.lookup "HANDLER").getD "main.handler"
  match Utf8.decodeStrict stdin with
  | none => py.early "UnicodeDecodeError" (py.unicodeDecodeError stdin)
  | some text =>
    match Json.loads F text with
    | .error e =>
      match e.loaded with
      | .raised e => py.early e.className e.message
      | _ => py.early "JSONDecodeError" (py.jsonDecodeError text)
    | .ok (.dict message) =>
      let event := (message.lookup ↑"event").getD (.dict [])
      let kwargs := (message.lookup ↑"context").getD (.dict [])
      match kwargs with
      | .dict items =>
        match RuntimeContext.ofKwargs items with
        | none => py.early "TypeError" (py.typeError kwargs)
        | some context => py.callHandler code handlerPath event context
      | _ => py.early "TypeError" (py.typeError kwargs)
    | .ok message => py.early "AttributeError" (py.attributeError message)

end Interpreter

/-! ## Reading the message back -/

section

variable {F : Json.Format} {spec : RuntimeInvocationSpec}

/-- The payload and the numbers of the specification can be carried in a message. -/
structure RuntimeInvocationSpec.Carried (F : Json.Format) (spec : RuntimeInvocationSpec) : Prop where
  payload : Json.Carried F spec.payload
  deadlineMs : Json.ShortInt spec.deadlineMs
  memoryLimitMb : Json.ShortInt spec.memoryLimitMb

theorem event_carried (h : Json.Carried F spec.payload) : Json.Carried F spec.event := by
  unfold RuntimeInvocationSpec.event eventOf
  split
  · have hroom := F.two_le_room
    refine ⟨.dict [] (by simp) (by simp) (by simp), ?_⟩
    simp only [JsonValue.depth, depthPairs]
    omega
  · exact h

theorem context_encodable (h : spec.Carried F) : Json.Encodable F (.dict spec.context.items) := by
  apply Json.Encodable.dict
  · simp [RuntimeContext.items]
  · intro p hp
    simp only [RuntimeContext.items, List.mem_cons, List.not_mem_nil, or_false] at hp
    rcases hp with rfl | rfl | rfl | rfl | rfl <;> exact CodePoint.joined_ofString _
  · intro p hp
    simp only [RuntimeContext.items, RuntimeInvocationSpec.context, List.mem_cons, List.not_mem_nil,
      or_false] at hp
    rcases hp with rfl | rfl | rfl | rfl | rfl
    · exact .str _ (CodePoint.joined_ofString _)
    · exact .str _ (CodePoint.joined_ofString _)
    · exact .str _ (CodePoint.joined_ofString _)
    · exact .int _ h.deadlineMs
    · exact .int _ h.memoryLimitMb

theorem context_depth (spec : RuntimeInvocationSpec) :
    (JsonValue.dict spec.context.items).depth = 1 := by
  simp [RuntimeContext.items, RuntimeInvocationSpec.context, JsonValue.depth, depthPairs]

theorem buildInputMessage_encodable (h : spec.Carried F) :
    Json.Encodable F spec.buildInputMessage ∧ spec.buildInputMessage.depth ≤ F.room := by
  have hevent := event_carried h.payload
  constructor
  · apply Json.Encodable.dict
    · simp
    · intro p hp
      simp only [List.mem_cons, List.not_mem_nil, or_false] at hp
      rcases hp with rfl | rfl <;> exact CodePoint.joined_ofString _
    · intro p hp
      simp only [List.mem_cons, List.not_mem_nil, or_false] at hp
      rcases hp with rfl | rfl
      · exact hevent.1
      · exact context_encodable h
  · have hdepth : spec.event.depth < F.room := hevent.2
    have hroom := F.two_le_room
    rw [RuntimeInvocationSpec.buildInputMessage, JsonValue.depth, depthPairs, depthPairs, depthPairs,
      context_depth]
    omega

/-- **The runner calls the handler with the payload and the context of the specification.** -/
theorem readAndCall_runtimeInput (py : Interpreter) (code : UserCode) (packageIsDir : Bool)
    (h : spec.Carried F) :
    py.readAndCall F code (spec.buildEnvironment packageIsDir) (spec.runtimeInput F) =
      py.callHandler code spec.handler spec.event spec.context := by
  have hblank : ∀ c ∈ ([] : List Char), Json.isWs c = true := fun c hc => absurd hc List.not_mem_nil
  have hloads : Json.loads F (Json.dumps F [] spec.buildInputMessage) =
      .ok (.dict [("event", spec.event), ("context", .dict spec.context.items)]) :=
    Json.loads_dumps hblank (buildInputMessage_encodable h).1 (buildInputMessage_encodable h).2
  have hhandler : ((spec.buildEnvironment packageIsDir).lookup "HANDLER").getD "main.handler" =
      spec.handler := rfl
  have hevent : [(CodePoint.ofString "event", spec.event),
      (CodePoint.ofString "context", JsonValue.dict spec.context.items)].lookup
        (CodePoint.ofString "event") = some spec.event := by
    simp
  have hcontext : [(CodePoint.ofString "event", spec.event),
      (CodePoint.ofString "context", JsonValue.dict spec.context.items)].lookup
        (CodePoint.ofString "context") = some (.dict spec.context.items) := by
    simp [List.lookup_cons]
  simp only [Interpreter.readAndCall, RuntimeInvocationSpec.runtimeInput, Utf8.decodeStrict_encode, hloads,
    hhandler, hevent, hcontext, Option.getD_some, RuntimeContext.ofKwargs_items]

end

end Serverless.Model
