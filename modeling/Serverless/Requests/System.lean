import Serverless.Ledger.System

/-!
# Concurrent calls of `create_invocation`

Every call advances one transaction at a time: look the key up, resolve the version,
insert and commit, and then either refresh the new row or, when the insert was
rejected, roll back and look the key up again. Any number of calls are in progress,
and the rest of the platform runs between their steps.
-/
namespace Serverless.Requests

open Serverless.Library Serverless.Model

/-- Where a call stands between two of its transactions. -/
inductive Stage where
  | lookUp
  | resolve
  | insert (version : FunctionVersion)
  | lookUpAgain (violation : Violation)
  | refresh (invocationId : UUID)
  | returned (result : InvocationCreateResult)
  | raised (error : CreateError)

structure CreateCall where
  request : CreateRequest
  stage : Stage := .lookUp

/-- A committed insert: which call made it and the rows it added. -/
structure Commit where
  call : Nat
  ownerKey : Option (UUID × String)
  invocationId : UUID
  dispatchId : UUID
  deriving DecidableEq

/-- `commits` is history only: no step reads it. -/
structure State where
  ledger : Ledger.State
  calls : List CreateCall
  commits : List Commit

def State.db (s : State) : Database := s.ledger.db

/-- The next transaction of a call: the stage it comes to, and the database it commits
if it writes. -/
def advance (db : Database) (c : CreateCall) (invocationId dispatchId : UUID) (now : Time) :
    Option (Stage × Option Database) :=
  match c.stage with
  | .lookUp =>
    match c.request.existing db with
    | some invocation => some (.returned ⟨invocation, false⟩, none)
    | none => some (.resolve, none)
  | .resolve =>
    match db.resolveFunctionVersion c.request.ownerId c.request.functionName
        c.request.versionNumber with
    | .error e => some (.raised e, none)
    | .ok version => some (.insert version, none)
  | .insert version =>
    match insertInvocation db c.request version invocationId dispatchId now with
    | .ok db' => some (.refresh invocationId, some db')
    | .error violation => some (.lookUpAgain violation, none)
  | .lookUpAgain violation =>
    match c.request.existing db with
    | some invocation => some (.returned ⟨invocation, false⟩, none)
    | none => some (.raised (.integrity violation), none)
  | .refresh id =>
    match db.invocations.get id with
    | some invocation => some (.returned ⟨invocation, true⟩, none)
    | none => some (.raised (.couldNotRefresh id), none)
  | .returned _ | .raised _ => none

inductive Event where
  | accept (request : CreateRequest)
  | advance (call : Nat) (invocationId dispatchId : UUID) (now : Time)
  | other (call : Ledger.Call)

/-- Calls of the rest of the platform; invocations are accepted by `advance` only. -/
def isOther : Ledger.Call → Bool
  | .createInvocation .. => false
  | _ => true

def State.setStage (s : State) (n : Nat) (c : CreateCall) (stage : Stage) : State :=
  { s with calls := s.calls.set n { c with stage := stage } }

def step (s : State) : Event → Option State
  | .accept request => some { s with calls := s.calls ++ [{ request := request }] }
  | .advance n invocationId dispatchId now =>
    match s.calls[n]? with
    | none => none
    | some c =>
      match Requests.advance s.db c invocationId dispatchId now with
      | none => none
      | some (stage, none) => some (s.setStage n c stage)
      | some (stage, some db) =>
        some { s.setStage n c stage with
          ledger := { s.ledger with db := db }
          commits := s.commits ++
            [⟨n, c.request.ownerKey, invocationId, dispatchId⟩] }
  | .other call =>
    if isOther call then (Ledger.step s.ledger call).map fun l => { s with ledger := l } else none

/-- No invocation exists and no call has been accepted. -/
def init (s : State) : Prop := Ledger.init s.ledger ∧ s.calls = [] ∧ s.commits = []

/-- What one step of a call can do. -/
inductive Advanced (db : Database) (c : CreateCall) (invocationId dispatchId : UUID)
    (now : Time) : Stage → Option Database → Prop where
  | found (i : Invocation) (hst : c.stage = .lookUp ∨ ∃ v, c.stage = .lookUpAgain v)
      (hi : c.request.existing db = some i) :
      Advanced db c invocationId dispatchId now (.returned ⟨i, false⟩) none
  | missing (hst : c.stage = .lookUp) : Advanced db c invocationId dispatchId now .resolve none
  | resolved (version : FunctionVersion) (hst : c.stage = .resolve) :
      Advanced db c invocationId dispatchId now (.insert version) none
  | rejected (version : FunctionVersion) (violation : Violation)
      (hst : c.stage = .insert version) :
      Advanced db c invocationId dispatchId now (.lookUpAgain violation) none
  | failed (error : CreateError) (hst : c.stage = .resolve ∨ ∃ v, c.stage = .lookUpAgain v) :
      Advanced db c invocationId dispatchId now (.raised error) none
  | committed (version : FunctionVersion) (db' : Database) (hst : c.stage = .insert version)
      (h : insertInvocation db c.request version invocationId dispatchId now = .ok db') :
      Advanced db c invocationId dispatchId now (.refresh invocationId) (some db')
  | refreshed (id : UUID) (i : Invocation) (hst : c.stage = .refresh id)
      (h : db.invocations.get id = some i) :
      Advanced db c invocationId dispatchId now (.returned ⟨i, true⟩) none
  | vanished (id : UUID) (hst : c.stage = .refresh id) (h : db.invocations.get id = none) :
      Advanced db c invocationId dispatchId now (.raised (.couldNotRefresh id)) none

theorem advance_cases {db : Database} {c : CreateCall} {invocationId dispatchId : UUID}
    {now : Time} {stage : Stage} {db' : Option Database}
    (h : advance db c invocationId dispatchId now = some (stage, db')) :
    Advanced db c invocationId dispatchId now stage db' := by
  unfold advance at h
  cases hst : c.stage with
  | lookUp =>
    cases hi : c.request.existing db with
    | some i =>
      simp only [hst, hi, Option.some.injEq, Prod.mk.injEq] at h
      obtain ⟨rfl, rfl⟩ := h
      exact .found i (Or.inl hst) hi
    | none =>
      simp only [hst, hi, Option.some.injEq, Prod.mk.injEq] at h
      obtain ⟨rfl, rfl⟩ := h
      exact .missing hst
  | resolve =>
    cases hv : db.resolveFunctionVersion c.request.ownerId c.request.functionName
        c.request.versionNumber with
    | error e =>
      simp only [hst, hv, Option.some.injEq, Prod.mk.injEq] at h
      obtain ⟨rfl, rfl⟩ := h
      exact .failed e (Or.inl hst)
    | ok version =>
      simp only [hst, hv, Option.some.injEq, Prod.mk.injEq] at h
      obtain ⟨rfl, rfl⟩ := h
      exact .resolved version hst
  | insert version =>
    cases hv : insertInvocation db c.request version invocationId dispatchId now with
    | error violation =>
      simp only [hst, hv, Option.some.injEq, Prod.mk.injEq] at h
      obtain ⟨rfl, rfl⟩ := h
      exact .rejected version violation hst
    | ok db'' =>
      simp only [hst, hv, Option.some.injEq, Prod.mk.injEq] at h
      obtain ⟨rfl, rfl⟩ := h
      exact .committed version db'' hst hv
  | lookUpAgain violation =>
    cases hi : c.request.existing db with
    | some i =>
      simp only [hst, hi, Option.some.injEq, Prod.mk.injEq] at h
      obtain ⟨rfl, rfl⟩ := h
      exact .found i (Or.inr ⟨violation, hst⟩) hi
    | none =>
      simp only [hst, hi, Option.some.injEq, Prod.mk.injEq] at h
      obtain ⟨rfl, rfl⟩ := h
      exact .failed _ (Or.inr ⟨violation, hst⟩)
  | refresh id =>
    cases hg : db.invocations.get id with
    | some i =>
      simp only [hst, hg, Option.some.injEq, Prod.mk.injEq] at h
      obtain ⟨rfl, rfl⟩ := h
      exact .refreshed id i hst hg
    | none =>
      simp only [hst, hg, Option.some.injEq, Prod.mk.injEq] at h
      obtain ⟨rfl, rfl⟩ := h
      exact .vanished id hst hg
  | returned result => simp [hst] at h
  | raised error => simp [hst] at h

end Serverless.Requests
