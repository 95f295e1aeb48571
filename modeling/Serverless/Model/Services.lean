import Mathlib.Order.Defs.LinearOrder
import Serverless.Model.Metrics
import Serverless.Model.Registry

/-!
# The services as the API calls them

The calls of `FunctionRegistryService`, `InvocationService` and `PlatformMetricsService` that take
an owner, on all the tables they read: `ensure_owner_exists` and the listings of
`backend/app/services/function_registry.py` are here. A row is only inserted next to the row it
refers to, which the call has read or inserts itself, so no foreign key rejects an insert.
-/
namespace Serverless.Model

open Serverless.Library

structure User where
  id : UUID
  email : String
  passwordHash : String
  deriving DecidableEq

/-- The unique column of `users`. -/
def User.uniqueEmail (u : User) : Option String := some u.email

/-- The tables, with the `created_at` columns of functions and versions apart. -/
structure Tables where
  db : Database
  users : Table User.id User.uniqueEmail
  functionCreatedAt : UUID → Time
  versionCreatedAt : UUID → Time

/-- A function row as it is returned. -/
structure FunctionRead where
  function : Function
  createdAt : Time

structure FunctionVersionRead where
  version : FunctionVersion
  createdAt : Time

inductive ServiceError where
  | registry (e : RegistryError)
  | create (e : CreateError)
  | get (e : GetError)
  | integrity (violation : Violation)

/-- What a call returns. -/
inductive Answer where
  | function (row : FunctionRead)
  | functions (rows : List FunctionRead)
  | version (row : FunctionVersionRead)
  | versions (rows : List FunctionVersionRead)
  | number (n : Nat)
  | created (result : InvocationCreateResult)
  | invocation (row : Invocation)
  | logsRef (ref : Option String)
  | summary (metrics : InvocationMetricsSummary)
  | queue (metrics : QueueMetricsSummary)

abbrev Response := Except ServiceError Answer

namespace Tables

variable (s : Tables) (ownerId : UUID)

/-- `ensure_owner_exists`, as the flush before the next select leaves the table. -/
def ensureOwnerExists : Except Violation (Table User.id User.uniqueEmail) :=
  match s.users.get ownerId with
  | some _ => .ok s.users
  | none =>
    let owner := ownerId.str
    s.users.insert ⟨ownerId, s!"dev-{owner}@example.local", "development-only"⟩

/-- A call that raises commits nothing, the owner row included. -/
def createFunction (name : String) (functionId : UUID) (now : Time) : Tables × Response :=
  match s.ensureOwnerExists ownerId with
  | .error violation => (s, .error (.integrity violation))
  | .ok users =>
    match s.db.createFunction ownerId name functionId with
    | (_, .error e) => (s, .error (.registry e))
    | (db, .ok function) =>
      ({ s with
          db := db
          users := users
          functionCreatedAt := Function.update s.functionCreatedAt functionId now },
        .ok (.function ⟨function, now⟩))

/-- `ORDER BY created_at, name`, with names in the order of the database. -/
def ListedBefore (collation : LinearOrder String) (a b : FunctionRead) : Prop :=
  a.createdAt < b.createdAt ∨ a.createdAt = b.createdAt ∧ collation.le a.function.name b.function.name

instance (collation : LinearOrder String) : DecidableRel (ListedBefore collation) := fun a b =>
  have := collation.toDecidableLE a.function.name b.function.name
  inferInstanceAs (Decidable (_ ∨ _ ∧ _))

def readFunction (f : Function) : FunctionRead := ⟨f, s.functionCreatedAt f.id⟩

def readVersion (v : FunctionVersion) : FunctionVersionRead := ⟨v, s.versionCreatedAt v.id⟩

def listFunctions (collation : LinearOrder String) : List FunctionRead :=
  ((s.db.functions.rows.filter fun f => f.ownerId = ownerId ∧ f.deletedAt = none).map
    s.readFunction).insertionSort (ListedBefore collation)

/-- Neither `None` nor zero is a version number. -/
def createFunctionVersion (functionName : String) (settings : VersionSettings)
    (package : StoredPackage) (versionNumber : Option Nat) (versionId : UUID) (now : Time) :
    Tables × Response :=
  match s.db.getFunctionByName ownerId functionName with
  | none => (s, .error (.registry (.functionNotFound functionName)))
  | some function =>
    let given := versionNumber.getD 0
    let number := if given = 0 then s.db.getNextVersionNumber function.id else given
    match s.db.insertFunctionVersion function.id number settings package versionId with
    | .error _ => (s, .error (.registry (.functionVersionConflict functionName)))
    | .ok db =>
      ({ s with
          db := db
          versionCreatedAt := Function.update s.versionCreatedAt versionId now },
        .ok (.version ⟨newVersion function.id number settings package versionId, now⟩))

def listFunctionVersions (functionName : String) : Response :=
  match s.db.getFunctionByName ownerId functionName with
  | none => .error (.registry (.functionNotFound functionName))
  | some function =>
    let versions := (s.db.versionsOf function.id).insertionSort
      fun v w => v.versionNumber ≤ w.versionNumber
    .ok (.versions (versions.map s.readVersion))

def getNextFunctionVersionNumber (functionName : String) : Response :=
  match s.db.getFunctionByName ownerId functionName with
  | none => .error (.registry (.functionNotFound functionName))
  | some function => .ok (.number (s.db.getNextVersionNumber function.id))

end Tables

/-- A call for an owner, with the clock readings and the new identifiers that it uses. -/
inductive ServiceCall where
  | createFunction (name : String) (functionId : UUID) (now : Time)
  | listFunctions
  | createFunctionVersion (functionName : String) (settings : VersionSettings)
      (package : StoredPackage) (versionNumber : Option Nat) (versionId : UUID) (now : Time)
  | listFunctionVersions (functionName : String)
  | getNextFunctionVersionNumber (functionName : String)
  | createInvocation (functionName : String) (payload : JsonValue) (idempotencyKey : Option String)
      (versionNumber : Option Nat) (invocationId dispatchId : UUID) (now : Time)
  | getInvocation (invocationId : UUID)
  | getLatestLogsRef (invocationId : UUID)
  | getInvocationSummary (now : Time)
  | getQueueSummary (now : Time)

namespace Tables

/-- The tables after a call for an owner, and the response. -/
def serve (collation : LinearOrder String) (s : Tables) (ownerId : UUID) :
    ServiceCall → Tables × Response
  | .createFunction name functionId now => s.createFunction ownerId name functionId now
  | .listFunctions => (s, .ok (.functions (s.listFunctions ownerId collation)))
  | .createFunctionVersion functionName settings package versionNumber versionId now =>
    s.createFunctionVersion ownerId functionName settings package versionNumber versionId now
  | .listFunctionVersions functionName => (s, s.listFunctionVersions ownerId functionName)
  | .getNextFunctionVersionNumber functionName =>
    (s, s.getNextFunctionVersionNumber ownerId functionName)
  | .createInvocation functionName payload idempotencyKey versionNumber invocationId dispatchId now =>
    let request : CreateRequest := ⟨ownerId, functionName, payload, idempotencyKey, versionNumber⟩
    let (db, outcome) := Model.createInvocation s.db request invocationId dispatchId now
    ({ s with db := db }, (outcome.map Answer.created).mapError ServiceError.create)
  | .getInvocation invocationId =>
    (s, ((s.db.getInvocation ownerId invocationId).map Answer.invocation).mapError ServiceError.get)
  | .getLatestLogsRef invocationId =>
    (s, ((s.db.getLatestLogsRef ownerId invocationId).map Answer.logsRef).mapError ServiceError.get)
  | .getInvocationSummary now => (s, .ok (.summary (s.db.getInvocationSummary ownerId now)))
  | .getQueueSummary now => (s, .ok (.queue (s.db.getQueueSummary ownerId now)))

end Tables

end Serverless.Model
