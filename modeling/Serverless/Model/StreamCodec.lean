import Serverless.Library.IsoDates
import Serverless.Library.Utf8
import Serverless.Model.Queue

/-!
# Stream entries as they are on the wire

`build_invocation_message_fields` (`backend/app/services/invocation_queue.py`) and the decoding
functions of `worker/app/queue/consumer.py` with the texts that travel between them; the functions
of the same names in `Serverless.Model` leave the texts out. Attempt numbers are those of a
four-byte column, far below the numerals that `int` refuses for their length.
-/
namespace Serverless.Model.Wire

open Serverless.Library

/-- What the standard library reads beyond the forms that are spelled out here. -/
structure PyText where
  /-- The values of the decimal digits of other scripts. -/
  unicodeDigit : Char → Option Nat
  /-- The other forms of ISO 8601 that `datetime.fromisoformat` accepts. -/
  otherIso : List Char → Option DateTime

/-- The columns of an invocation that its message carries. -/
structure Invocation where
  id : UUID
  functionVersionId : UUID
  ownerId : UUID
  queuedAt : DateTime
  deadlineAt : DateTime

/-- The fields in the order in which they are sent. -/
def buildInvocationMessageFields (invocation : Invocation) (attemptNumber : Nat) :
    List (String × String) :=
  [("invocation_id", invocation.id.str),
    ("function_version_id", invocation.functionVersionId.str),
    ("owner_id", invocation.ownerId.str),
    ("attempt_number", String.ofList (Nat.toDigits 10 attemptNumber)),
    ("queued_at", String.ofList invocation.queuedAt.isoformat),
    ("deadline_at", String.ofList invocation.deadlineAt.isoformat)]

structure InvocationTask where
  streamMessageId : String
  invocationId : UUID
  functionVersionId : UUID
  ownerId : UUID
  attemptNumber : Int
  queuedAt : DateTime
  deadlineAt : DateTime
  recovered : Bool := false
  deriving DecidableEq

structure ClaimedInvocationTasks where
  nextStartId : String
  tasks : List InvocationTask

/-- A value as the client returns it. -/
inductive RedisValue where
  | bytes (data : List UInt8)
  | str (text : String)
  | int (n : Int)

/-- The items of a dict, in order. -/
abbrev StreamFields := List (RedisValue × RedisValue)

/-- The exceptions of `parse_invocation_task`, with what they are raised for. -/
inductive DecodeError where
  | unicodeDecodeError (data : List UInt8)
  | keyError (name : String)
  | badUuid (text : String)
  | badInt (text : String)
  | badIsoformat (text : String)

def decodeRedisValue : RedisValue → Except DecodeError String
  | .bytes data =>
    match Utf8.decodeStrict data with
    | some text => .ok (String.ofList text)
    | none => .error (.unicodeDecodeError data)
  | .str text => .ok text
  | .int n => .ok (toString n)

def normalizeStreamFields (fields : StreamFields) : Except DecodeError (List (String × String)) :=
  fields.mapM fun (key, value) => do
    let key ← decodeRedisValue key
    let value ← decodeRedisValue value
    pure (key, value)

/-- `normalized[name]`: of two items with the same key the later one stays. -/
def item (normalized : List (String × String)) (name : String) : Except DecodeError String :=
  match normalized.reverse.lookup name with
  | some value => .ok value
  | none => .error (.keyError name)

/-- `text.replace(pattern, "")`, with the number of characters that are still to be left out. -/
def removeAll (pattern : List Char) : Nat → List Char → List Char
  | _, [] => []
  | skip + 1, _ :: cs => removeAll pattern skip cs
  | 0, c :: cs =>
    if pattern.isPrefixOf (c :: cs) then removeAll pattern (pattern.length - 1) cs
    else c :: removeAll pattern 0 cs

def isBrace (c : Char) : Bool := c = '{' ∨ c = '}'

/-- `UUID(text)`. -/
def uuid (py : PyText) (text : String) : Except DecodeError UUID :=
  let cs := removeAll "uuid:".toList 0 (removeAll "urn:".toList 0 text.toList)
  let cs := ((cs.dropWhile isBrace).rdropWhile isBrace).filter fun c => !decide (c = '-')
  if cs.length ≠ 32 then .error (.badUuid text)
  else match Numerals.readInt py.unicodeDigit 16 cs with
    | none => .error (.badInt text)
    | some n => if 0 ≤ n ∧ n < 2 ^ 128 then .ok (BitVec.ofInt 128 n) else .error (.badUuid text)

/-- `int(text)`. -/
def int (py : PyText) (text : String) : Except DecodeError Int :=
  match Numerals.readInt py.unicodeDigit 10 text.toList with
  | none => .error (.badInt text)
  | some n => .ok n

/-- `datetime.fromisoformat(text)`. -/
def fromisoformat (py : PyText) (text : String) : Except DecodeError DateTime :=
  match DateTime.fromisoformat py.otherIso text.toList with
  | none => .error (.badIsoformat text)
  | some t => .ok t

def parseInvocationTask (py : PyText) (messageId : RedisValue) (fields : StreamFields)
    (recovered : Bool := false) : Except DecodeError InvocationTask := do
  let normalized ← normalizeStreamFields fields
  let streamMessageId ← decodeRedisValue messageId
  let invocationId ← uuid py (← item normalized "invocation_id")
  let functionVersionId ← uuid py (← item normalized "function_version_id")
  let ownerId ← uuid py (← item normalized "owner_id")
  let attemptNumber ← int py (← item normalized "attempt_number")
  let queuedAt ← fromisoformat py (← item normalized "queued_at")
  let deadlineAt ← fromisoformat py (← item normalized "deadline_at")
  pure ⟨streamMessageId, invocationId, functionVersionId, ownerId, attemptNumber, queuedAt,
    deadlineAt, recovered⟩

/-- A message of a response: its id and its fields. -/
abbrev Message := RedisValue × StreamFields

/-- `None` and an empty response are both false. -/
def parseXreadgroupResponse (py : PyText) (response : Option (List (RedisValue × List Message))) :
    Except DecodeError (List InvocationTask) := do
  let tasks ← (response.getD []).mapM fun (_, messages) =>
    messages.mapM fun (messageId, fields) => parseInvocationTask py messageId fields
  pure tasks.flatten

/-- The parts of an `XAUTOCLAIM` response that are read. -/
structure XautoclaimResponse where
  nextStartId : RedisValue
  messages : List Message

def parseXautoclaimResponse (py : PyText) :
    Option XautoclaimResponse → Except DecodeError ClaimedInvocationTasks
  | none => .ok ⟨"0-0", []⟩
  | some parts => do
    let nextStartId ← decodeRedisValue parts.nextStartId
    let tasks ← parts.messages.mapM fun (messageId, fields) =>
      parseInvocationTask py messageId fields true
    pure ⟨nextStartId, tasks⟩

end Serverless.Model.Wire
