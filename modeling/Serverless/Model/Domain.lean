import Mathlib.Data.Rat.Defs
import Serverless.Library.CodePoints
import Serverless.Library.Table
import Serverless.Library.Text

/-!
# Statuses, rows and tables

The enumerations of `backend/app/domain/enums.py` and the rows of
`backend/app/models`, with the columns that the modelled services read or write.
Times are naive UTC timestamps counted in microseconds.
-/
namespace Serverless.Model

open Serverless.Library

abbrev UUID := BitVec 128

instance : LawfulBEq UUID := inferInstance

/-- `str(uuid)`: 32 hexadecimal digits in groups of 8, 4, 4, 4 and 12. -/
def UUID.str (u : UUID) : String :=
  let digits := Text.hexChars 32 u.toNat
  let group (start len : Nat) := (digits.drop start).take len
  String.ofList (List.intercalate ['-']
    [group 0 8, group 8 4, group 12 4, group 16 4, group 20 12])

/-- `f"{value}"` of an optional id. -/
def optionalStr : Option UUID → String
  | none => "None"
  | some u => u.str

abbrev Time := Int

/-- `timedelta(seconds=n)` for an integer number of seconds. -/
def seconds (n : Int) : Time := n * 1000000

inductive InvocationStatus where
  | queued
  | running
  | retrying
  | succeeded
  | failed
  | timeout
  | canceled
  deriving DecidableEq, Repr

inductive InvocationAttemptStatus where
  | running
  | succeeded
  | failed
  | timeout
  deriving DecidableEq, Repr

inductive WorkerStatus where
  | idle
  | running
  | draining
  | offline
  deriving DecidableEq, Repr

/-- `TERMINAL_INVOCATION_STATUSES`. -/
def terminalInvocationStatuses : List InvocationStatus := [.succeeded, .failed, .timeout, .canceled]

/-- `InvocationStateService.is_terminal_status` on a status that is present. -/
def InvocationStatus.isTerminal (s : InvocationStatus) : Prop := s ∈ terminalInvocationStatuses

instance (s : InvocationStatus) : Decidable s.isTerminal :=
  inferInstanceAs (Decidable (s ∈ terminalInvocationStatuses))

theorem InvocationStatus.not_isTerminal_iff (s : InvocationStatus) :
    ¬ s.isTerminal ↔ s = .queued ∨ s = .running ∨ s = .retrying := by
  cases s <;> decide

/-- A `str`, which may hold lone surrogates. -/
abbrev PyStr := List CodePoint

/-- Python's JSON values; `json.loads` also produces the three non-finite floats. -/
inductive JsonValue where
  | null
  | bool (b : Bool)
  | int (n : Int)
  | float (q : ℚ)
  | nan
  | infinity (negative : Bool)
  | str (s : PyStr)
  | list (items : List JsonValue)
  | dict (items : List (PyStr × JsonValue))

/- How many brackets are open at the innermost place of a value. -/
mutual

def JsonValue.depth : JsonValue → Nat
  | .list items => depthItems items + 1
  | .dict items => depthPairs items + 1
  | _ => 0

def depthItems : List JsonValue → Nat
  | [] => 0
  | v :: items => max v.depth (depthItems items)

def depthPairs : List (PyStr × JsonValue) → Nat
  | [] => 0
  | (_, v) :: items => max v.depth (depthPairs items)

end

structure Function where
  id : UUID
  ownerId : UUID
  name : String
  deletedAt : Option Time

structure FunctionVersion where
  id : UUID
  functionId : UUID
  versionNumber : Nat
  runtime : String
  handler : String
  packageUri : String
  packageHash : String
  memoryLimitMb : Nat
  cpuLimit : ℚ
  timeoutSeconds : Nat

structure Invocation where
  id : UUID
  ownerId : UUID
  functionVersionId : UUID
  idempotencyKey : Option String
  status : InvocationStatus
  payloadInline : JsonValue
  resultRef : Option String := none
  resultInline : JsonValue := .null
  errorType : Option PyStr := none
  errorMessage : Option PyStr := none
  queuedAt : Time
  startedAt : Option Time := none
  completedAt : Option Time := none
  deadlineAt : Time
  attemptCount : Nat
  createdAt : Time

structure InvocationAttempt where
  id : UUID
  invocationId : UUID
  workerId : Option UUID
  attemptNumber : Nat
  status : InvocationAttemptStatus
  containerId : Option String := none
  exitCode : Option Int := none
  errorType : Option PyStr := none
  errorMessage : Option PyStr := none
  logsRef : Option String := none
  startedAt : Time
  completedAt : Option Time := none
  durationMs : Option Int := none
  deriving DecidableEq

structure InvocationDispatch where
  id : UUID
  invocationId : UUID
  attemptNumber : Nat
  publishAttempts : Nat := 0
  lastError : Option String := none
  publishedMessageId : Option Nat := none
  createdAt : Time
  availableAt : Time
  publishedAt : Option Time := none
  deriving DecidableEq

structure Worker where
  id : UUID
  hostname : String
  consumerName : Option String
  status : WorkerStatus
  lastHeartbeat : Time
  activeInvocations : Nat
  maxConcurrency : Nat
  startedAt : Time
  deriving DecidableEq

/-- `uq_functions_owner_name`. -/
def Function.ownerName (f : Function) : Option (UUID × String) := some (f.ownerId, f.name)

/-- `uq_function_versions_function_version`. -/
def FunctionVersion.functionNumber (v : FunctionVersion) : Option (UUID × Nat) :=
  some (v.functionId, v.versionNumber)

/-- `uq_invocations_owner_idempotency_key`; null keys never collide. -/
def Invocation.ownerKey (i : Invocation) : Option (UUID × String) :=
  i.idempotencyKey.map fun k => (i.ownerId, k)

/-- `uq_invocation_attempts_invocation_attempt`. -/
def InvocationAttempt.invocationNumber (a : InvocationAttempt) : Option (UUID × Nat) :=
  some (a.invocationId, a.attemptNumber)

/-- `uq_invocation_dispatches_invocation_attempt`. -/
def InvocationDispatch.invocationNumber (d : InvocationDispatch) : Option (UUID × Nat) :=
  some (d.invocationId, d.attemptNumber)

/-- Worker rows have no unique column besides the key. -/
def Worker.noIndex (_ : Worker) : Option Unit := none

structure Database where
  functions : Table Function.id Function.ownerName
  versions : Table FunctionVersion.id FunctionVersion.functionNumber
  invocations : Table Invocation.id Invocation.ownerKey
  attempts : Table InvocationAttempt.id InvocationAttempt.invocationNumber
  dispatches : Table InvocationDispatch.id InvocationDispatch.invocationNumber
  workers : Table Worker.id Worker.noIndex

namespace Database

/-- A database in which nothing has been invoked yet and no worker has registered. -/
def fresh (functions : Table Function.id Function.ownerName)
    (versions : Table FunctionVersion.id FunctionVersion.functionNumber) : Database where
  functions := functions
  versions := versions
  invocations := .empty
  attempts := .empty
  dispatches := .empty
  workers := .empty

/-- The attempt rows of one invocation. -/
def attemptsOf (db : Database) (id : UUID) : List InvocationAttempt :=
  db.attempts.rows.filter fun a => a.invocationId = id

/-- The dispatch rows of one invocation. -/
def dispatchesOf (db : Database) (id : UUID) : List InvocationDispatch :=
  db.dispatches.rows.filter fun d => d.invocationId = id

theorem mem_attemptsOf {db : Database} {id : UUID} {a : InvocationAttempt} :
    a ∈ db.attemptsOf id ↔ a ∈ db.attempts ∧ a.invocationId = id := by
  simp [attemptsOf, Table.mem_rows]

theorem mem_dispatchesOf {db : Database} {id : UUID} {d : InvocationDispatch} :
    d ∈ db.dispatchesOf id ↔ d ∈ db.dispatches ∧ d.invocationId = id := by
  simp [dispatchesOf, Table.mem_rows]

/-- The unique index on attempts, read back: number and invocation determine the row. -/
theorem attempt_eq_of_number {db : Database} {a b : InvocationAttempt} (ha : a ∈ db.attempts)
    (hb : b ∈ db.attempts) (hi : a.invocationId = b.invocationId)
    (hn : a.attemptNumber = b.attemptNumber) : a = b :=
  Table.eq_of_uniq ha hb (x := (b.invocationId, b.attemptNumber))
    (by simp [InvocationAttempt.invocationNumber, hi, hn]) rfl

theorem dispatch_eq_of_number {db : Database} {d e : InvocationDispatch} (hd : d ∈ db.dispatches)
    (he : e ∈ db.dispatches) (hi : d.invocationId = e.invocationId)
    (hn : d.attemptNumber = e.attemptNumber) : d = e :=
  Table.eq_of_uniq hd he (x := (e.invocationId, e.attemptNumber))
    (by simp [InvocationDispatch.invocationNumber, hi, hn]) rfl

end Database

/-- The version that the scenarios of this development invoke. -/
def helloVersion (timeoutSeconds : Nat) : FunctionVersion where
  id := 2
  functionId := 1
  versionNumber := 1
  runtime := "python3.11"
  handler := "main.handler"
  packageUri := "storage/packages/hello.zip"
  packageHash := "0123456789abcdef"
  memoryLimitMb := 256
  cpuLimit := 1 / 2
  timeoutSeconds := timeoutSeconds

end Serverless.Model
