import Mathlib.Data.List.Sort
import Serverless.Model.Domain

/-!
# Accepting an invocation

`InvocationService` of `backend/app/services/invocations.py`: looking an idempotency
key up, resolving the function version and inserting the invocation with its first
outbox row in one transaction.
-/
namespace Serverless.Model

open Serverless.Library

structure CreateRequest where
  ownerId : UUID
  functionName : String
  payload : JsonValue
  idempotencyKey : Option String := none
  versionNumber : Option Nat := none

inductive CreateError where
  | functionNotFound (name : String)
  | functionVersionNotFound (functionName : String) (versionNumber : Option Nat)
  | integrity (violation : Violation)
  | couldNotRefresh (invocationId : UUID)
  deriving DecidableEq

structure InvocationCreateResult where
  invocation : Invocation
  created : Bool

namespace Database

def getInvocationByIdempotencyKey (db : Database) (ownerId : UUID) (key : String) :
    Option Invocation :=
  ((db.invocations.rows.filter fun i => i.ownerId = ownerId ∧ i.idempotencyKey = some key)
    |>.insertionSort fun i j => i.createdAt ≤ j.createdAt).head?

def resolveFunctionVersion (db : Database) (ownerId : UUID) (functionName : String)
    (versionNumber : Option Nat) : Except CreateError FunctionVersion :=
  match db.functions.rows.find? fun f =>
      f.ownerId = ownerId ∧ f.name = functionName ∧ f.deletedAt = none with
  | none => .error (.functionNotFound functionName)
  | some function =>
    let versions := db.versions.rows.filter fun v => v.functionId = function.id
    let found := match versionNumber with
      | none => (versions.insertionSort fun v w => w.versionNumber ≤ v.versionNumber).head?
      | some n => versions.find? fun v => v.versionNumber = n
    match found with
    | none => .error (.functionVersionNotFound functionName versionNumber)
    | some version => .ok version

end Database

inductive GetError where
  | invocationNotFound (invocationId : UUID)
  deriving DecidableEq

namespace Database

def getInvocation (db : Database) (ownerId invocationId : UUID) : Except GetError Invocation :=
  match db.invocations.rows.find? fun i => i.id = invocationId ∧ i.ownerId = ownerId with
  | none => .error (.invocationNotFound invocationId)
  | some invocation => .ok invocation

/-- The reference of the last attempt; a missing row and a null column both give `none`. -/
def getLatestLogsRef (db : Database) (ownerId invocationId : UUID) :
    Except GetError (Option String) :=
  match db.getInvocation ownerId invocationId with
  | .error e => .error e
  | .ok invocation =>
    let latest := ((db.attemptsOf invocation.id).insertionSort
      fun a b => b.attemptNumber ≤ a.attemptNumber).head?
    .ok (latest.bind (·.logsRef))

end Database

namespace CreateRequest

/-- The pair the unique index sees. -/
def ownerKey (request : CreateRequest) : Option (UUID × String) :=
  request.idempotencyKey.map fun key => (request.ownerId, key)

/-- The lookup of a request: without a key there is none. -/
def existing (request : CreateRequest) (db : Database) : Option Invocation :=
  request.idempotencyKey.bind (db.getInvocationByIdempotencyKey request.ownerId)

end CreateRequest

def newInvocation (request : CreateRequest) (version : FunctionVersion) (invocationId : UUID)
    (now : Time) : Invocation where
  id := invocationId
  ownerId := request.ownerId
  functionVersionId := version.id
  idempotencyKey := request.idempotencyKey
  status := .queued
  payloadInline := request.payload
  queuedAt := now
  deadlineAt := now + seconds version.timeoutSeconds
  attemptCount := 0
  createdAt := now

def firstDispatch (invocationId dispatchId : UUID) (now : Time) : InvocationDispatch where
  id := dispatchId
  invocationId := invocationId
  attemptNumber := 1
  createdAt := now
  availableAt := now

/-- The one transaction of `create_invocation` that writes. -/
def insertInvocation (db : Database) (request : CreateRequest) (version : FunctionVersion)
    (invocationId dispatchId : UUID) (now : Time) : Except Violation Database := do
  let invocations ← db.invocations.insert (newInvocation request version invocationId now)
  let dispatches ← db.dispatches.insert (firstDispatch invocationId dispatchId now)
  pure { db with invocations := invocations, dispatches := dispatches }

/-- The whole call, with no other transaction in between. -/
def createInvocation (db : Database) (request : CreateRequest) (invocationId dispatchId : UUID)
    (now : Time) : Database × Except CreateError InvocationCreateResult :=
  match request.existing db with
  | some invocation => (db, .ok ⟨invocation, false⟩)
  | none =>
    match db.resolveFunctionVersion request.ownerId request.functionName request.versionNumber with
    | .error e => (db, .error e)
    | .ok version =>
      match insertInvocation db request version invocationId dispatchId now with
      | .ok db' => (db', .ok ⟨newInvocation request version invocationId now, true⟩)
      | .error violation =>
        match request.existing db with
        | some invocation => (db, .ok ⟨invocation, false⟩)
        | none => (db, .error (.integrity violation))

/-- What a lookup finds is a row with the pair of the request. -/
theorem CreateRequest.existing_some {request : CreateRequest} {db : Database} {i : Invocation}
    (h : request.existing db = some i) :
    i ∈ db.invocations ∧ i.ownerKey = request.ownerKey ∧ request.idempotencyKey ≠ none := by
  unfold existing at h
  cases hk : request.idempotencyKey with
  | none => simp [hk] at h
  | some key =>
    simp only [hk, Option.bind_some, Database.getInvocationByIdempotencyKey] at h
    have hm := List.mem_of_mem_head? h
    simp only [List.mem_insertionSort, List.mem_filter, decide_eq_true_eq] at hm
    obtain ⟨hi, ho, hkey⟩ := hm
    exact ⟨hi, by simp [Invocation.ownerKey, ownerKey, hk, hkey, ho], by simp⟩

/-- What a committed insert adds, and what it found missing. -/
theorem insertInvocation_ok {db db' : Database} {request : CreateRequest}
    {version : FunctionVersion} {invocationId dispatchId : UUID} {now : Time}
    (h : insertInvocation db request version invocationId dispatchId now = .ok db') :
    ∃ invocations dispatches,
      db.invocations.insert (newInvocation request version invocationId now) = .ok invocations ∧
      db.dispatches.insert (firstDispatch invocationId dispatchId now) = .ok dispatches ∧
      db' = { db with invocations := invocations, dispatches := dispatches } := by
  unfold insertInvocation at h
  cases hi : db.invocations.insert (newInvocation request version invocationId now) with
  | error v => simp [hi, bind, Except.bind] at h
  | ok invocations =>
    cases hd : db.dispatches.insert (firstDispatch invocationId dispatchId now) with
    | error v => simp [hi, hd, bind, Except.bind] at h
    | ok dispatches =>
      refine ⟨invocations, dispatches, rfl, rfl, ?_⟩
      simpa [hi, hd, bind, Except.bind, pure, Except.pure, eq_comm] using h

/-- A call changes the database only by a committed insert. -/
theorem createInvocation_db (db : Database) (request : CreateRequest)
    (invocationId dispatchId : UUID) (now : Time) :
    (createInvocation db request invocationId dispatchId now).1 = db ∨
    ∃ version db', insertInvocation db request version invocationId dispatchId now = .ok db' ∧
      (createInvocation db request invocationId dispatchId now).1 = db' := by
  unfold createInvocation
  split
  · exact Or.inl rfl
  split
  · exact Or.inl rfl
  rename_i version _
  split
  · rename_i db' hi
    exact Or.inr ⟨version, db', hi, rfl⟩
  · split <;> exact Or.inl rfl

/-- The version that a request resolves to is a row of the table, of a function of the owner. -/
theorem resolveFunctionVersion_ok {db : Database} {ownerId : UUID} {functionName : String}
    {versionNumber : Option Nat} {version : FunctionVersion}
    (h : db.resolveFunctionVersion ownerId functionName versionNumber = .ok version) :
    version ∈ db.versions ∧
      ∃ f ∈ db.functions, f.id = version.functionId ∧ f.ownerId = ownerId := by
  unfold Database.resolveFunctionVersion at h
  split at h
  · cases h
  · rename_i function hfunction
    dsimp only at h
    split at h
    · cases h
    · rename_i hfound
      cases h
      have hm : version ∈ db.versions.rows.filter fun v => v.functionId = function.id := by
        cases versionNumber with
        | none =>
          have hh := List.mem_of_mem_head? hfound
          rwa [List.mem_insertionSort] at hh
        | some n => exact List.mem_of_find?_eq_some hfound
      obtain ⟨hv, hid⟩ := List.mem_filter.mp hm
      have hp := List.find?_some hfunction
      simp only [decide_eq_true_eq] at hid hp
      exact ⟨hv, function, List.mem_of_find?_eq_some hfunction, hid.symm, hp.1⟩

/-- The row that a call adds, if it adds one, is pinned to a version of a function of its owner. -/
theorem createInvocation_origin {db : Database} {request : CreateRequest}
    {invocationId dispatchId : UUID} {now : Time} {i : Invocation}
    (h : i ∈ (createInvocation db request invocationId dispatchId now).1.invocations) :
    i ∈ db.invocations ∨ ∃ version ∈ db.versions,
      i = newInvocation request version invocationId now ∧
      ∃ f ∈ db.functions, f.id = version.functionId ∧ f.ownerId = request.ownerId := by
  unfold createInvocation at h
  split at h
  · exact Or.inl h
  split at h
  · exact Or.inl h
  rename_i version hversion
  split at h
  · rename_i db' hc
    obtain ⟨invocations, _, hi, -, rfl⟩ := insertInvocation_ok hc
    rcases (Table.mem_insert hi).mp h with h | rfl
    · exact Or.inl h
    · obtain ⟨hv, hf⟩ := resolveFunctionVersion_ok hversion
      exact Or.inr ⟨version, hv, rfl, hf⟩
  · split at h <;> exact Or.inl h

end Serverless.Model
