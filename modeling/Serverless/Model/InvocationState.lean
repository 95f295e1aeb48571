import Serverless.Model.Queue
import Serverless.Model.Retry

/-!
# Worker-side invocation state transitions

`mark_running` and `mark_finished` of `worker/app/services/invocation_state.py`.
Each is one transaction that holds the invocation row from its first read to its
commit, so it is a function of the committed database. Every call returns the
database it leaves behind together with its result or the exception it raises: a
call that raises may have committed something (an exceeded deadline does).
-/
namespace Serverless.Model

open Serverless.Library

inductive StartError where
  | cannotStart (invocationId : UUID) (status : Option InvocationStatus)
  | obsoleteTask (invocationId : UUID) (attemptNumber : Nat)
  | deadlineExceeded (invocationId : UUID)
  | integrity (violation : Violation)
  deriving DecidableEq

inductive CompleteError where
  | cannotComplete (invocationId attemptId : UUID)
      (invocationStatus : Option InvocationStatus) (attemptStatus : Option InvocationAttemptStatus)
  | integrity (violation : Violation)
  | keyError (status : InvocationAttemptStatus)
  deriving DecidableEq

/-- `max(0, int((completed_at - started_at).total_seconds() * 1000))`, with exact arithmetic in
place of the float product. -/
def durationMs (startedAt completedAt : Time) : Int := max 0 ((completedAt - startedAt) / 1000)

/-- An `Integer` column. -/
def FitsInteger (n : Int) : Prop := -2147483648 ≤ n ∧ n ≤ 2147483647

instance (n : Int) : Decidable (FitsInteger n) := inferInstanceAs (Decidable (_ ∧ _))

/-- The `TIMEOUT` record of an invocation whose deadline passed before it could start. -/
def Invocation.expire (i : Invocation) (now : Time) : Invocation :=
  { i with
    status := .timeout
    completedAt := some now
    startedAt := none
    errorType := some "TimeoutError"
    errorMessage := some "Invocation deadline exceeded before execution" }

/-- The `RUNNING` record of an invocation whose attempt `number` starts at `now`. -/
def Invocation.start (i : Invocation) (number : Nat) (now : Time) : Invocation :=
  { i with
    status := .running
    startedAt := some now
    attemptCount := max i.attemptCount number }

namespace Database

def expireInvocation (db : Database) (id : UUID) (now : Time) : Database :=
  { db with invocations := db.invocations.modify id (·.expire now) fun _ => ⟨rfl, rfl⟩ }

/-- The select of `mark_running` on the outbox. -/
def scheduledRetry (db : Database) (id : UUID) (number : Nat) : Prop :=
  ∃ d ∈ db.dispatches.rows, d.invocationId = id ∧ d.attemptNumber = number

instance (db : Database) (id : UUID) (number : Nat) : Decidable (db.scheduledRetry id number) :=
  inferInstanceAs (Decidable (∃ d ∈ db.dispatches.rows, _))

end Database

/-- The attempt row that `mark_running` adds. -/
def newAttempt (task : InvocationTask) (workerId : Option UUID) (attemptId : UUID) (number : Nat)
    (now : Time) : InvocationAttempt where
  id := attemptId
  invocationId := task.invocationId
  workerId := workerId
  attemptNumber := number
  status := .running
  startedAt := now

/-- The last part of `mark_running`: insert the attempt, mark the invocation, commit. -/
def startAttempt (db : Database) (task : InvocationTask) (workerId : Option UUID)
    (attemptId : UUID) (number : Nat) (now : Time) :
    Database × Except StartError InvocationAttempt :=
  let attempt := newAttempt task workerId attemptId number now
  match db.attempts.insert attempt with
  | .error violation => (db, .error (.integrity violation))
  | .ok attempts =>
    ({ db with
        attempts := attempts
        invocations :=
          db.invocations.modify task.invocationId (·.start number now) fun _ => ⟨rfl, rfl⟩ },
      .ok attempt)

def markRunning (db : Database) (task : InvocationTask) (workerId : Option UUID)
    (attemptId : UUID) (now : Time) : Database × Except StartError InvocationAttempt :=
  match db.invocations.get task.invocationId with
  | none => (db, .error (.cannotStart task.invocationId none))
  | some invocation =>
    if invocation.status.isTerminal then
      (db, .error (.cannotStart task.invocationId (some invocation.status)))
    else if invocation.status = .running ∧ task.attemptNumber ≤ invocation.attemptCount then
      (db, .error (.obsoleteTask task.invocationId task.attemptNumber))
    else if invocation.deadlineAt ≤ now then
      (db.expireInvocation task.invocationId now, .error (.deadlineExceeded task.invocationId))
    else if ¬ (invocation.status = .queued ∨ invocation.status = .retrying) then
      (db, .error (.cannotStart task.invocationId (some invocation.status)))
    else
      let expectedAttemptNumber := invocation.attemptCount + 1
      if task.attemptNumber < expectedAttemptNumber then
        if task.recovered = false ∨ db.scheduledRetry invocation.id expectedAttemptNumber then
          (db, .error (.obsoleteTask task.invocationId task.attemptNumber))
        else startAttempt db task workerId attemptId expectedAttemptNumber now
      else if expectedAttemptNumber < task.attemptNumber then
        (db, .error (.cannotStart task.invocationId (some invocation.status)))
      else startAttempt db task workerId attemptId task.attemptNumber now

/-- The exits of `mark_running`, each with the guards that lead to it. -/
inductive StartOutcome (db : Database) (task : InvocationTask) (workerId : Option UUID)
    (attemptId : UUID) (now : Time) : Database → Except StartError InvocationAttempt → Prop where
  | missing (hget : db.invocations.get task.invocationId = none) :
      StartOutcome db task workerId attemptId now db
        (.error (.cannotStart task.invocationId none))
  | terminal (i : Invocation) (hget : db.invocations.get task.invocationId = some i)
      (ht : i.status.isTerminal) :
      StartOutcome db task workerId attemptId now db
        (.error (.cannotStart task.invocationId (some i.status)))
  | superseded (i : Invocation) (hget : db.invocations.get task.invocationId = some i)
      (hs : i.status = .running) (hn : task.attemptNumber ≤ i.attemptCount) :
      StartOutcome db task workerId attemptId now db
        (.error (.obsoleteTask task.invocationId task.attemptNumber))
  | expired (i : Invocation) (hget : db.invocations.get task.invocationId = some i)
      (ht : ¬ i.status.isTerminal)
      (hs : i.status = .running → i.attemptCount < task.attemptNumber)
      (hd : i.deadlineAt ≤ now) :
      StartOutcome db task workerId attemptId now (db.expireInvocation task.invocationId now)
        (.error (.deadlineExceeded task.invocationId))
  | future (i : Invocation) (hget : db.invocations.get task.invocationId = some i)
      (ht : ¬ i.status.isTerminal) (hd : now < i.deadlineAt)
      (hn : i.attemptCount < task.attemptNumber)
      (hs : i.status = .running ∨ i.attemptCount + 1 < task.attemptNumber) :
      StartOutcome db task workerId attemptId now db
        (.error (.cannotStart task.invocationId (some i.status)))
  | late (i : Invocation) (hget : db.invocations.get task.invocationId = some i)
      (hs : i.status = .queued ∨ i.status = .retrying) (hd : now < i.deadlineAt)
      (hn : task.attemptNumber ≤ i.attemptCount)
      (hr : task.recovered = false ∨ db.scheduledRetry i.id (i.attemptCount + 1)) :
      StartOutcome db task workerId attemptId now db
        (.error (.obsoleteTask task.invocationId task.attemptNumber))
  | rejected (i : Invocation) (violation : Violation)
      (hget : db.invocations.get task.invocationId = some i)
      (hs : i.status = .queued ∨ i.status = .retrying)
      (hv : db.attempts.insert
        (newAttempt task workerId attemptId (i.attemptCount + 1) now) = .error violation) :
      StartOutcome db task workerId attemptId now db (.error (.integrity violation))
  | started (i : Invocation)
      (attempts : Table InvocationAttempt.id InvocationAttempt.invocationNumber)
      (hget : db.invocations.get task.invocationId = some i)
      (hs : i.status = .queued ∨ i.status = .retrying) (hd : now < i.deadlineAt)
      (hn : task.attemptNumber = i.attemptCount + 1 ∨
        task.attemptNumber ≤ i.attemptCount ∧ task.recovered = true ∧
          ¬ db.scheduledRetry i.id (i.attemptCount + 1))
      (hv : db.attempts.insert
        (newAttempt task workerId attemptId (i.attemptCount + 1) now) = .ok attempts) :
      StartOutcome db task workerId attemptId now
        { db with
          attempts := attempts
          invocations := db.invocations.modify task.invocationId
            (·.start (i.attemptCount + 1) now) fun _ => ⟨rfl, rfl⟩ }
        (.ok (newAttempt task workerId attemptId (i.attemptCount + 1) now))

private theorem startAttempt_outcome {db : Database} {task : InvocationTask}
    {workerId : Option UUID} {attemptId : UUID} {now : Time} {i : Invocation}
    (hget : db.invocations.get task.invocationId = some i)
    (hs : i.status = .queued ∨ i.status = .retrying) (hd : now < i.deadlineAt)
    (hn : task.attemptNumber = i.attemptCount + 1 ∨
      task.attemptNumber ≤ i.attemptCount ∧ task.recovered = true ∧
        ¬ db.scheduledRetry i.id (i.attemptCount + 1)) :
    StartOutcome db task workerId attemptId now
      (startAttempt db task workerId attemptId (i.attemptCount + 1) now).1
      (startAttempt db task workerId attemptId (i.attemptCount + 1) now).2 := by
  unfold startAttempt
  dsimp only
  split
  · rename_i violation hv
    exact .rejected i violation hget hs hv
  · rename_i attempts hv
    exact .started i attempts hget hs hd hn hv

private theorem markRunning_outcome (db : Database) (task : InvocationTask) (workerId : Option UUID)
    (attemptId : UUID) (now : Time) :
    StartOutcome db task workerId attemptId now
      (markRunning db task workerId attemptId now).1
      (markRunning db task workerId attemptId now).2 := by
  unfold markRunning
  cases hget : db.invocations.get task.invocationId with
  | none => exact .missing hget
  | some i =>
    dsimp only
    by_cases ht : i.status.isTerminal
    · rw [if_pos ht]
      exact .terminal i hget ht
    rw [if_neg ht]
    by_cases hr : i.status = .running ∧ task.attemptNumber ≤ i.attemptCount
    · rw [if_pos hr]
      exact .superseded i hget hr.1 hr.2
    rw [if_neg hr]
    by_cases hd : i.deadlineAt ≤ now
    · rw [if_pos hd]
      exact .expired i hget ht (fun h => by by_contra hn; exact hr ⟨h, by omega⟩) hd
    rw [if_neg hd]
    have hd' : now < i.deadlineAt := lt_of_not_ge hd
    by_cases hs : i.status = .queued ∨ i.status = .retrying
    · rw [if_neg (not_not_intro hs)]
      by_cases hlt : task.attemptNumber < i.attemptCount + 1
      · rw [if_pos hlt]
        by_cases hob : task.recovered = false ∨ db.scheduledRetry i.id (i.attemptCount + 1)
        · rw [if_pos hob]
          exact .late i hget hs hd' (by omega) hob
        · rw [if_neg hob]
          have hrec : task.recovered = true := by
            cases h : task.recovered
            · exact absurd (Or.inl h) hob
            · rfl
          exact startAttempt_outcome hget hs hd'
            (Or.inr ⟨by omega, hrec, fun h => hob (Or.inr h)⟩)
      · rw [if_neg hlt]
        by_cases hgt : i.attemptCount + 1 < task.attemptNumber
        · rw [if_pos hgt]
          exact .future i hget ht hd' (by omega) (Or.inr hgt)
        · rw [if_neg hgt]
          have heq : task.attemptNumber = i.attemptCount + 1 := by omega
          rw [heq]
          exact startAttempt_outcome hget hs hd' (Or.inl heq)
    · rw [if_pos hs]
      have hrun : i.status = .running := by
        rcases (InvocationStatus.not_isTerminal_iff _).mp ht with h | h | h
        · exact absurd (Or.inl h) hs
        · exact h
        · exact absurd (Or.inr h) hs
      exact .future i hget ht hd' (by by_contra hn; exact hr ⟨hrun, by omega⟩) (Or.inl hrun)

/-- **Every call of `mark_running` takes one of the exits.** -/
theorem markRunning_cases {db db' : Database} {task : InvocationTask} {workerId : Option UUID}
    {attemptId : UUID} {now : Time} {r : Except StartError InvocationAttempt}
    (h : markRunning db task workerId attemptId now = (db', r)) :
    StartOutcome db task workerId attemptId now db' r := by
  have ho := markRunning_outcome db task workerId attemptId now
  rwa [h] at ho

/-- What a `mark_running` that returns an attempt has found and changed. -/
structure Started (db : Database) (task : InvocationTask) (workerId : Option UUID)
    (attempt : InvocationAttempt) (db' : Database) (i : Invocation) : Prop where
  found : db.invocations.get task.invocationId = some i
  waiting : i.status = .queued ∨ i.status = .retrying
  asked : task.attemptNumber ≤ i.attemptCount + 1
  invocationId : attempt.invocationId = task.invocationId
  worker : attempt.workerId = workerId
  number : attempt.attemptNumber = i.attemptCount + 1
  running : attempt.status = .running
  fresh : ∀ a ∈ db.attempts, a.id ≠ attempt.id
  attempts : ∀ {a}, a ∈ db'.attempts ↔ a ∈ db.attempts ∨ a = attempt
  invocation : ∃ i' ∈ db'.invocations, i'.id = i.id ∧ i'.attemptCount = i.attemptCount + 1
  others : ∀ {j'}, j' ∈ db'.invocations →
    j'.id = task.invocationId ∧ j'.attemptCount = i.attemptCount + 1 ∨
      j' ∈ db.invocations ∧ j'.id ≠ task.invocationId
  kept : ∀ j ∈ db.invocations, j.id ≠ task.invocationId → j ∈ db'.invocations
  dispatches : db'.dispatches = db.dispatches

theorem Started.scheduledRetry {db db' : Database} {task : InvocationTask} {workerId : Option UUID}
    {attempt : InvocationAttempt} {i : Invocation}
    (h : Started db task workerId attempt db' i) {id : UUID} {n : Nat}
    (hs : db.scheduledRetry id n) : db'.scheduledRetry id n := by
  obtain ⟨d, hd, hrest⟩ := hs
  exact ⟨d, by rw [h.dispatches]; exact hd, hrest⟩

theorem markRunning_started {db db' : Database} {task : InvocationTask} {workerId : Option UUID}
    {attemptId : UUID} {now : Time} {attempt : InvocationAttempt}
    (h : markRunning db task workerId attemptId now = (db', .ok attempt)) :
    ∃ i, Started db task workerId attempt db' i := by
  cases markRunning_cases h with
  | started i attempts hget hs hd hn hv =>
    have hf : ∀ r : Invocation, (r.start (i.attemptCount + 1) now).id = r.id ∧
        (r.start (i.attemptCount + 1) now).ownerKey = r.ownerKey := fun _ => ⟨rfl, rfl⟩
    have hcount : (i.start (i.attemptCount + 1) now).attemptCount = i.attemptCount + 1 := by
      simp only [Invocation.start]
      omega
    refine ⟨i, hget, hs, by omega, rfl, rfl, rfl, rfl, ?_, Table.mem_insert hv,
      ⟨_, Table.mem_modify_self hf hget, rfl, hcount⟩, fun {j'} hj' => ?_,
      fun j hj hne => Table.mem_modify_of_ne hf hj hne, rfl⟩
    · exact Table.get_eq_none.mp (Table.insert_fresh hv)
    · rcases Table.mem_modify_cases hf hget hj' with rfl | hold
      · exact Or.inl ⟨(hf i).1.trans (Table.get_key hget), hcount⟩
      · exact Or.inr hold

theorem markRunning_dispatches {db db' : Database} {task : InvocationTask} {workerId : Option UUID}
    {attemptId : UUID} {now : Time} {r : Except StartError InvocationAttempt}
    (h : markRunning db task workerId attemptId now = (db', r)) :
    db'.dispatches = db.dispatches := by
  cases markRunning_cases h <;> rfl

theorem markRunning_workers {db db' : Database} {task : InvocationTask} {workerId : Option UUID}
    {attemptId : UUID} {now : Time} {r : Except StartError InvocationAttempt}
    (h : markRunning db task workerId attemptId now = (db', r)) : db'.workers = db.workers := by
  cases markRunning_cases h <;> rfl

/-- `ATTEMPT_TO_INVOCATION_STATUS`; a missing key is a `KeyError`. -/
def attemptToInvocationStatus : InvocationAttemptStatus → Option InvocationStatus
  | .running => none
  | .succeeded => some .succeeded
  | .failed => some .failed
  | .timeout => some .timeout

/-- What a flush leaves in a column: only columns whose assigned value differs from
the loaded one are part of the `UPDATE`. -/
def changed {α : Type} [DecidableEq α] (loaded assigned current : α) : α :=
  if assigned = loaded then current else assigned

@[simp] theorem changed_self {α : Type} [DecidableEq α] (loaded assigned : α) :
    changed loaded assigned loaded = assigned := by
  unfold changed
  split
  · rename_i h
    exact h.symm
  · rfl

theorem changed_of_ne {α : Type} [DecidableEq α] {loaded assigned : α} (h : assigned ≠ loaded)
    (current : α) : changed loaded assigned current = assigned := by
  simp [changed, h]

/-- The object a select of the attempt row yields: a session that still holds an object
for the row keeps the attribute values it loaded earlier. -/
def loadAttempt (db : Database) (attemptId : UUID) (held : Option InvocationAttempt) :
    Option InvocationAttempt :=
  (db.attempts.get attemptId).map fun row => held.getD row

theorem mem_of_loadAttempt {db : Database} {attemptId : UUID} {a : InvocationAttempt}
    (h : loadAttempt db attemptId none = some a) : a ∈ db.attempts := by
  simp only [loadAttempt, Option.getD_none, Option.map_id'] at h
  exact Table.get_mem h

theorem eq_of_loadAttempt {db : Database} {attemptId : UUID} {held a : InvocationAttempt}
    (h : loadAttempt db attemptId (some held) = some a) : a = held := by
  obtain ⟨_, -, he⟩ := Option.map_eq_some_iff.mp h
  exact he.symm

/-- `session.refresh(attempt)`: the object takes the committed column values. -/
def refreshAttempt (db : Database) (attempt : InvocationAttempt) : InvocationAttempt :=
  (db.attempts.get attempt.id).getD attempt

theorem refreshAttempt_eq {db : Database} {attempt row : InvocationAttempt}
    (hrow : row ∈ db.attempts) (hid : row.id = attempt.id) : refreshAttempt db attempt = row := by
  rw [refreshAttempt, ← hid, Table.get_of_mem hrow]
  rfl

/-- The columns `mark_finished` flushes to the attempt row, given the object it loaded. -/
def InvocationAttempt.finish (loaded : InvocationAttempt) (result : RuntimeExecutionResult)
    (completedAt : Time) (row : InvocationAttempt) : InvocationAttempt :=
  { row with
    status := changed loaded.status result.status row.status
    completedAt := changed loaded.completedAt (some completedAt) row.completedAt
    durationMs := changed loaded.durationMs
      (some (result.durationMs.getD (Model.durationMs loaded.startedAt completedAt)))
      row.durationMs
    logsRef := changed loaded.logsRef result.logsRef row.logsRef
    containerId := changed loaded.containerId result.containerId row.containerId
    exitCode := changed loaded.exitCode result.exitCode row.exitCode
    errorType := changed loaded.errorType result.errorType row.errorType
    errorMessage := changed loaded.errorMessage result.errorMessage row.errorMessage }

/-- The result columns, written whether or not a retry follows. -/
def Invocation.record (i : Invocation) (result : RuntimeExecutionResult) : Invocation :=
  { i with
    resultInline := result.resultInline
    resultRef := result.resultRef
    errorType := result.errorType
    errorMessage := result.errorMessage }

def Invocation.retry (i : Invocation) (result : RuntimeExecutionResult) : Invocation :=
  { i.record result with
    status := .retrying
    completedAt := none
    startedAt := none }

def Invocation.complete (i : Invocation) (status : InvocationStatus)
    (result : RuntimeExecutionResult) (completedAt : Time) : Invocation :=
  { i.record result with
    status := status
    completedAt := some completedAt }

/-- The outbox row of the next attempt. -/
def retryDispatch (invocationId dispatchId : UUID) (number : Nat) (decision : RetryDecision)
    (completedAt : Time) : InvocationDispatch where
  id := dispatchId
  invocationId := invocationId
  attemptNumber := number + 1
  createdAt := completedAt
  availableAt := completedAt + timedelta decision.delaySeconds

namespace Database

/-- Flush the attempt columns of `mark_finished`. -/
def finishAttempt (db : Database) (attempt : InvocationAttempt) (result : RuntimeExecutionResult)
    (now : Time) : Database :=
  { db with attempts := db.attempts.modify attempt.id (attempt.finish result now)
              fun _ => ⟨rfl, rfl⟩ }

def retryInvocation (db : Database) (id : UUID) (result : RuntimeExecutionResult) : Database :=
  { db with invocations := db.invocations.modify id (·.retry result) fun _ => ⟨rfl, rfl⟩ }

def completeInvocation (db : Database) (id : UUID) (status : InvocationStatus)
    (result : RuntimeExecutionResult) (now : Time) : Database :=
  { db with invocations := db.invocations.modify id (·.complete status result now)
              fun _ => ⟨rfl, rfl⟩ }

end Database

/-- `held` is the attempt object the calling session still holds, if any. -/
def markFinished (db : Database) (invocationId attemptId : UUID)
    (held : Option InvocationAttempt) (result : RuntimeExecutionResult)
    (decision : RetryDecision) (dispatchId : UUID) (now : Time) :
    Database × Except CompleteError InvocationAttempt :=
  match db.invocations.get invocationId, loadAttempt db attemptId held with
  | some invocation, some attempt =>
    if attempt.invocationId ≠ invocationId ∨ invocation.status ≠ .running ∨
        attempt.status ≠ .running then
      (db, .error (.cannotComplete invocationId attemptId (some invocation.status)
        (some attempt.status)))
    else if decision.shouldRetry then
      match db.dispatches.insert
          (retryDispatch invocationId dispatchId attempt.attemptNumber decision now) with
      | .error violation => (db, .error (.integrity violation))
      | .ok dispatches =>
        let db' := { (db.retryInvocation invocationId result).finishAttempt attempt result now with
          dispatches := dispatches }
        (db', .ok (refreshAttempt db' attempt))
    else match attemptToInvocationStatus result.status with
      | none => (db, .error (.keyError result.status))
      | some status =>
        let db' :=
          (db.completeInvocation invocationId status result now).finishAttempt attempt result now
        (db', .ok (refreshAttempt db' attempt))
  | invocation, attempt =>
    (db, .error (.cannotComplete invocationId attemptId (invocation.map (·.status))
      (attempt.map (·.status))))

/-- The exits of `mark_finished` that commit, each with the guards that lead to it, and
the exits that leave the database alone. -/
inductive FinishOutcome (db : Database) (invocationId attemptId : UUID)
    (held : Option InvocationAttempt) (result : RuntimeExecutionResult)
    (decision : RetryDecision) (dispatchId : UUID) (now : Time) :
    Database → Except CompleteError InvocationAttempt → Prop where
  | raised (error : CompleteError) (hv : error ≠ .integrity .uniqueIndex) :
      FinishOutcome db invocationId attemptId held result decision dispatchId now db (.error error)
  | rejected (i : Invocation) (a : InvocationAttempt)
      (hget : db.invocations.get invocationId = some i)
      (hload : loadAttempt db attemptId held = some a) (hinv : a.invocationId = invocationId)
      (hi : i.status = .running) (ha : a.status = .running)
      (hv : db.dispatches.insert (retryDispatch invocationId dispatchId a.attemptNumber decision
        now) = .error .uniqueIndex) :
      FinishOutcome db invocationId attemptId held result decision dispatchId now db
        (.error (.integrity .uniqueIndex))
  | retried (i : Invocation) (a : InvocationAttempt)
      (dispatches : Table InvocationDispatch.id InvocationDispatch.invocationNumber)
      (hget : db.invocations.get invocationId = some i)
      (hload : loadAttempt db attemptId held = some a) (hinv : a.invocationId = invocationId)
      (hi : i.status = .running) (ha : a.status = .running) (hr : decision.shouldRetry = true)
      (hv : db.dispatches.insert (retryDispatch invocationId dispatchId a.attemptNumber decision
        now) = .ok dispatches) (refreshed : InvocationAttempt) :
      FinishOutcome db invocationId attemptId held result decision dispatchId now
        { (db.retryInvocation invocationId result).finishAttempt a result now with
          dispatches := dispatches } (.ok refreshed)
  | completed (i : Invocation) (a : InvocationAttempt) (status : InvocationStatus)
      (hget : db.invocations.get invocationId = some i)
      (hload : loadAttempt db attemptId held = some a) (hinv : a.invocationId = invocationId)
      (hi : i.status = .running) (ha : a.status = .running) (hr : decision.shouldRetry = false)
      (hs : attemptToInvocationStatus result.status = some status)
      (refreshed : InvocationAttempt) :
      FinishOutcome db invocationId attemptId held result decision dispatchId now
        ((db.completeInvocation invocationId status result now).finishAttempt a result now)
        (.ok refreshed)

private theorem markFinished_outcome (db : Database) (invocationId attemptId : UUID)
    (held : Option InvocationAttempt) (result : RuntimeExecutionResult)
    (decision : RetryDecision) (dispatchId : UUID) (now : Time) :
    FinishOutcome db invocationId attemptId held result decision dispatchId now
      (markFinished db invocationId attemptId held result decision dispatchId now).1
      (markFinished db invocationId attemptId held result decision dispatchId now).2 := by
  unfold markFinished
  cases hget : db.invocations.get invocationId with
  | none => exact .raised _ (by simp)
  | some i =>
    cases hload : loadAttempt db attemptId held with
    | none => exact .raised _ (by simp)
    | some a =>
      dsimp only
      by_cases hg : a.invocationId ≠ invocationId ∨ i.status ≠ .running ∨ a.status ≠ .running
      · rw [if_pos hg]
        exact .raised _ (by simp)
      rw [if_neg hg]
      simp only [not_or, not_not] at hg
      obtain ⟨hinv, hi, ha⟩ := hg
      by_cases hr : decision.shouldRetry = true
      · rw [if_pos hr]
        cases hv : db.dispatches.insert
            (retryDispatch invocationId dispatchId a.attemptNumber decision now) with
        | error violation =>
          cases violation with
          | primaryKey => exact .raised _ (by simp)
          | uniqueIndex => exact .rejected i a hget hload hinv hi ha hv
        | ok dispatches => exact .retried i a dispatches hget hload hinv hi ha hr hv _
      · rw [if_neg hr]
        cases hs : attemptToInvocationStatus result.status with
        | none => exact .raised _ (by simp)
        | some status =>
          exact .completed i a status hget hload hinv hi ha (by simpa using hr) hs _

/-- **Every call of `mark_finished` takes one of the exits.** -/
theorem markFinished_cases {db db' : Database} {invocationId attemptId : UUID}
    {held : Option InvocationAttempt} {result : RuntimeExecutionResult}
    {decision : RetryDecision} {dispatchId : UUID} {now : Time}
    {r : Except CompleteError InvocationAttempt}
    (h : markFinished db invocationId attemptId held result decision dispatchId now = (db', r)) :
    FinishOutcome db invocationId attemptId held result decision dispatchId now db' r := by
  have ho := markFinished_outcome db invocationId attemptId held result decision dispatchId now
  rwa [h] at ho

/-- At most one outbox row is added, and it is not published. -/
theorem markFinished_dispatches {db db' : Database} {invocationId attemptId : UUID}
    {held : Option InvocationAttempt} {result : RuntimeExecutionResult}
    {decision : RetryDecision} {dispatchId : UUID} {now : Time}
    {r : Except CompleteError InvocationAttempt}
    (h : markFinished db invocationId attemptId held result decision dispatchId now = (db', r)) :
    db'.dispatches = db.dispatches ∨
      ∃ d, d.publishedAt = none ∧ db.dispatches.insert d = .ok db'.dispatches := by
  cases markFinished_cases h with
  | raised | rejected | completed => exact Or.inl rfl
  | retried i a dispatches _ _ _ _ _ _ hv => exact Or.inr ⟨_, rfl, hv⟩

theorem markFinished_workers {db db' : Database} {invocationId attemptId : UUID}
    {held : Option InvocationAttempt} {result : RuntimeExecutionResult}
    {decision : RetryDecision} {dispatchId : UUID} {now : Time}
    {r : Except CompleteError InvocationAttempt}
    (h : markFinished db invocationId attemptId held result decision dispatchId now = (db', r)) :
    db'.workers = db.workers := by
  cases markFinished_cases h <;> rfl

/-- A `mark_finished` that raises leaves the database as it was. -/
theorem markFinished_error {db db' : Database} {invocationId attemptId : UUID}
    {held : Option InvocationAttempt} {result : RuntimeExecutionResult} {decision : RetryDecision}
    {dispatchId : UUID} {now : Time} {error : CompleteError}
    (h : markFinished db invocationId attemptId held result decision dispatchId now =
      (db', .error error)) : db' = db := by
  cases markFinished_cases h with
  | raised | rejected => rfl

theorem attemptToInvocationStatus_isTerminal {s : InvocationAttemptStatus} {t : InvocationStatus}
    (h : attemptToInvocationStatus s = some t) : t.isTerminal := by
  cases s <;> cases h <;> decide

end Serverless.Model
