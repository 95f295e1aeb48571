import Serverless.Model.Invocations
import Serverless.Model.Recovery

/-!
# What transactions never undo

Whatever a transaction of the platform does, a terminal invocation stays as it ended and,
unless it is a `mark_running` that starts one, no attempt is `RUNNING` after it that was
not `RUNNING` before. A recovery that commits long after its reads is the one exception
to the first.
-/
namespace Serverless.Model

open Serverless.Library

/-- Every terminal row of `db` is still there in `db'`, column for column. -/
def TerminalKept (db db' : Database) : Prop :=
  ∀ i ∈ db.invocations, i.status.isTerminal → i ∈ db'.invocations

namespace TerminalKept

variable {db db' : Database}

theorem refl (db : Database) : TerminalKept db db := fun _ hi _ => hi

theorem of_eq (h : db'.invocations = db.invocations) : TerminalKept db db' :=
  fun _ hi _ => h ▸ hi

theorem trans {db'' : Database} (h : TerminalKept db db') (h' : TerminalKept db' db'') :
    TerminalKept db db'' :=
  fun i hi ht => h' i (h i hi ht) ht

/-- An update of one row that is not terminal. -/
theorem modify {id : UUID} {f : Invocation → Invocation} {i : Invocation}
    (hf : ∀ r, (f r).id = r.id ∧ (f r).ownerKey = r.ownerKey)
    (hget : db.invocations.get id = some i) (hi : ¬ i.status.isTerminal) :
    TerminalKept db { db with invocations := db.invocations.modify id f hf } := by
  intro j hj ht
  refine Table.mem_modify_of_ne hf hj fun he => hi ?_
  have hji : j = i := Table.eq_of_key hj (Table.get_mem hget) (he.trans (Table.get_key hget).symm)
  exact hji ▸ ht

theorem running_not_terminal {i : Invocation} (h : i.status = .running) :
    ¬ i.status.isTerminal := by
  rw [h]
  decide

theorem waiting_not_terminal {i : Invocation} (h : i.status = .queued ∨ i.status = .retrying) :
    ¬ i.status.isTerminal := by
  rcases h with h | h <;> rw [h] <;> decide

theorem markRunning {task : InvocationTask} {workerId : Option UUID} {attemptId : UUID} {now : Time}
    {r : Except StartError InvocationAttempt}
    (h : markRunning db task workerId attemptId now = (db', r)) : TerminalKept db db' := by
  cases markRunning_cases h with
  | missing | terminal | superseded | future | late | rejected => exact refl db
  | expired i hget ht =>
    exact modify (f := (·.expire now)) (fun _ => ⟨rfl, rfl⟩) hget ht
  | started i attempts hget hs =>
    exact modify (f := (·.start (i.attemptCount + 1) now)) (fun _ => ⟨rfl, rfl⟩) hget
      (waiting_not_terminal hs)

theorem markFinished {invocationId attemptId : UUID} {held : Option InvocationAttempt}
    {result : RuntimeExecutionResult} {decision : RetryDecision} {dispatchId : UUID} {now : Time}
    {r : Except CompleteError InvocationAttempt}
    (h : markFinished db invocationId attemptId held result decision dispatchId now = (db', r)) :
    TerminalKept db db' := by
  cases markFinished_cases h with
  | raised | rejected => exact refl db
  | retried i a dispatches hget hload hinv hi =>
    exact modify (f := (·.retry result)) (fun _ => ⟨rfl, rfl⟩) hget (running_not_terminal hi)
  | completed i a status hget hload hinv hi =>
    exact modify (f := (·.complete status result now)) (fun _ => ⟨rfl, rfl⟩) hget
      (running_not_terminal hi)

/-- A recovery that is about to write to no terminal invocation. -/
theorem commitRecovery {r : RecoveryRead} (maxAttempts : Nat)
    (h : ∀ p ∈ r.lost, ∀ i, db.invocations.get p.2.id = some i → ¬ i.status.isTerminal) :
    TerminalKept db (commitRecovery db r maxAttempts) := by
  refine commitRecovery_rec (P := TerminalKept db) (fun _ => ?_) (refl db)
  intro i hi ht
  have hfree : ∀ p ∈ r.lost, p.2.id ≠ i.id := by
    intro p hp he
    exact h p hp i (he ▸ Table.get_of_mem hi) ht
  exact Table.get_mem ((Table.get_flush_of_not_listed
    (by exact fun _ _ => ⟨Invocation.lose_id _ _ _ _, Invocation.lose_ownerKey _ _ _ _⟩)
    hfree).trans (Table.get_of_mem hi))

/-- A recovery that commits what it has just read. -/
theorem recovered {staleAfterSeconds : Nat} {locked : List UUID} {r : RecoveryRead}
    (h : ReadOf db staleAfterSeconds locked r) (maxAttempts : Nat) :
    TerminalKept db (Model.commitRecovery db r maxAttempts) := by
  refine commitRecovery maxAttempts fun p hp i hget => running_not_terminal ?_
  obtain ⟨him, -, hrun⟩ := h.invocation p hp
  rw [Table.get_of_mem him] at hget
  cases hget
  exact hrun

theorem inserted {request : CreateRequest} {version : FunctionVersion}
    {invocationId dispatchId : UUID} {now : Time}
    (h : insertInvocation db request version invocationId dispatchId now = .ok db') :
    TerminalKept db db' := by
  obtain ⟨_, _, hi, -, rfl⟩ := insertInvocation_ok h
  exact fun i him _ => (Table.mem_insert hi).mpr (Or.inl him)

end TerminalKept

/-- Every attempt row of `db'` is a row of `db`, and `RUNNING` only if it was. -/
def NoneStarted (db db' : Database) : Prop :=
  ∀ a' ∈ db'.attempts, ∃ a ∈ db.attempts, a.id = a'.id ∧ a.invocationId = a'.invocationId ∧
    a.attemptNumber = a'.attemptNumber ∧ a.workerId = a'.workerId ∧
    (a'.status = .running → a.status = .running)

namespace NoneStarted

variable {db db' : Database}

theorem of_eq (h : db'.attempts = db.attempts) : NoneStarted db db' :=
  fun a ha => ⟨a, h ▸ ha, rfl, rfl, rfl, rfl, id⟩

/-- The columns `mark_finished` flushes never turn a row back to `RUNNING`. -/
theorem finishAttempt {a : InvocationAttempt} (result : RuntimeExecutionResult) (now : Time)
    (ha : a.status = .running) (hdb : db'.attempts = (db.finishAttempt a result now).attempts) :
    NoneStarted db db' := by
  intro b' hb'
  rw [hdb] at hb'
  obtain ⟨b, hb, rfl⟩ := (Table.mem_modify (by exact fun _ => ⟨rfl, rfl⟩)).mp hb'
  refine ⟨b, hb, ?_⟩
  split
  · refine ⟨rfl, rfl, rfl, rfl, fun hrun => ?_⟩
    simp only [InvocationAttempt.finish, changed, ha] at hrun
    split at hrun
    · exact hrun
    · rename_i hne
      exact absurd hrun hne
  · exact ⟨rfl, rfl, rfl, rfl, id⟩

theorem markFinished {invocationId attemptId : UUID} {held : Option InvocationAttempt}
    {result : RuntimeExecutionResult} {decision : RetryDecision} {dispatchId : UUID} {now : Time}
    {r : Except CompleteError InvocationAttempt}
    (h : markFinished db invocationId attemptId held result decision dispatchId now = (db', r)) :
    NoneStarted db db' := by
  cases markFinished_cases h with
  | raised | rejected => exact of_eq rfl
  | retried i a dispatches hget hload hinv hi ha => exact finishAttempt result now ha rfl
  | completed i a status hget hload hinv hi ha => exact finishAttempt result now ha rfl

theorem recovered {staleAfterSeconds : Nat} {locked : List UUID} {r : RecoveryRead}
    (h : ReadOf db staleAfterSeconds locked r) (maxAttempts : Nat) :
    NoneStarted db (commitRecovery db r maxAttempts) := by
  intro a' ha'
  obtain ⟨a, ha, rfl | ⟨p, hp, rfl, rfl⟩⟩ := h.mem_attempts ha'
  · exact ⟨a', ha, rfl, rfl, rfl, rfl, id⟩
  · refine ⟨p.1, ha, rfl, rfl, rfl, rfl, fun hrun => ?_⟩
    exact (h.attempt p hp).2.1

/-- What runs has been running, for the same worker. -/
theorem runner (h : NoneStarted db db') {a' : InvocationAttempt} (ha' : a' ∈ db'.attempts)
    (hrun : a'.status = .running) :
    ∃ a ∈ db.attempts, a.workerId = a'.workerId ∧ a.status = .running := by
  obtain ⟨a, ha, -, -, -, hw, hr⟩ := h a' ha'
  exact ⟨a, ha, hw, hr hrun⟩

/-- A `mark_running` that raises has started nothing. -/
theorem markRunning {task : InvocationTask} {workerId : Option UUID} {attemptId : UUID}
    {now : Time} {error : StartError}
    (h : markRunning db task workerId attemptId now = (db', .error error)) :
    NoneStarted db db' := by
  cases markRunning_cases h <;> exact of_eq rfl

end NoneStarted

end Serverless.Model
