import Serverless.Library.Runs
import Serverless.Model.Heartbeat
import Serverless.Model.Invocations
import Serverless.Model.Outbox
import Serverless.Model.Recovery

/-!
# The platform as a sequence of complete calls

Each event is one service call that reads committed rows and commits before the next
one starts. Messages stay on the stream for good: a task may be made from any message
published so far, any number of times, recovered or not.
-/
namespace Serverless.Ledger

open Serverless.Library Serverless.Model

structure State where
  db : Database
  stream : List StreamMessage

inductive Call where
  | createFunction (row : Function)
  | createFunctionVersion (row : FunctionVersion)
  | createInvocation (request : CreateRequest) (invocationId dispatchId : UUID) (now : Time)
  | dispatchPending (limit : Nat) (now : Time) (outcomes : List (PublishOutcome × Time))
  | markRunning (message : StreamMessage) (messageId : StreamId) (recovered : Bool)
      (workerId : Option UUID) (attemptId : UUID) (now : Time)
  | markFinished (invocationId attemptId : UUID) (result : RuntimeExecutionResult)
      (policy : RetryPolicy) (dispatchId : UUID) (now : Time)
  | recoverStaleWorkers (staleAfterSeconds maxAttempts : Nat) (now : Time)
  | registerWorker (workerId : UUID) (hostname : String) (maxConcurrency : Nat)
      (consumerName : Option String) (now : Time)
  | recordHeartbeat (workerId : UUID) (activeInvocations : Nat) (status : WorkerStatus)
      (now : Time)
  | markOffline (workerId : UUID) (now : Time)
  | markWorkersOffline (workerIds : List UUID)

/-- The database after an insert that may be rejected. -/
def orUnchanged (db : Database) : Except Violation Database → Database
  | .ok db' => db'
  | .error _ => db

def step (s : State) : Call → Option State
  | .createFunction row =>
    some { s with db := orUnchanged s.db ((s.db.functions.insert row).map fun functions =>
      { s.db with functions := functions }) }
  | .createFunctionVersion row =>
    some { s with db := orUnchanged s.db ((s.db.versions.insert row).map fun versions =>
      { s.db with versions := versions }) }
  | .createInvocation request invocationId dispatchId now =>
    some { s with db := (createInvocation s.db request invocationId dispatchId now).1 }
  | .dispatchPending limit now outcomes =>
    let (db, stream, _) := dispatchPending s.db s.stream limit now outcomes
    some { db := db, stream := stream }
  | .markRunning message messageId recovered workerId attemptId now =>
    if message ∈ s.stream then
      let task := parseInvocationTask messageId message recovered
      some { s with db := (markRunning s.db task workerId attemptId now).1 }
    else none
  | .markFinished invocationId attemptId result policy dispatchId now =>
    -- the decision is the one `process_tasks` asks for, so the attempt row must exist
    match s.db.attempts.get attemptId with
    | none => none
    | some attempt =>
      if result.status = .running then none
      else
        let decision := policy.decide result attempt.attemptNumber
        some { s with
          db := (markFinished s.db invocationId attemptId none result decision dispatchId now).1 }
  | .recoverStaleWorkers staleAfterSeconds maxAttempts now =>
    some { s with db := (recoverStaleWorkers s.db staleAfterSeconds maxAttempts now).1 }
  | .registerWorker workerId hostname maxConcurrency consumerName now =>
    some { s with
      db := orUnchanged s.db
        (registerWorker s.db workerId hostname maxConcurrency consumerName now) }
  | .recordHeartbeat workerId activeInvocations status now =>
    some { s with
      db := (recordHeartbeat s.db workerId activeInvocations status now).getD s.db }
  | .markOffline workerId now => some { s with db := (markOffline s.db workerId now).getD s.db }
  | .markWorkersOffline workerIds => some { s with db := markWorkersOffline s.db workerIds }

/-- Any functions and versions may be registered; nothing has been invoked. -/
def init (s : State) : Prop := ∃ functions versions, s = ⟨.fresh functions versions, []⟩

/-- What a complete call can do to the invocation, attempt and dispatch tables. Calls that
only touch functions, versions or workers leave all three alone. -/
inductive Effect (s : State) : Call → State → Prop where
  | unrelated (c : Call) (db : Database) (hi : db.invocations = s.db.invocations)
      (ha : db.attempts = s.db.attempts) (hd : db.dispatches = s.db.dispatches) :
      Effect s c { s with db := db }
  | created (request : CreateRequest) (version : FunctionVersion) (invocationId dispatchId : UUID)
      (now : Time) (db : Database)
      (h : insertInvocation s.db request version invocationId dispatchId now = .ok db) :
      Effect s (.createInvocation request invocationId dispatchId now) { s with db := db }
  | dispatched (limit : Nat) (now : Time) (outcomes : List (PublishOutcome × Time)) :
      Effect s (.dispatchPending limit now outcomes)
        { db := (dispatchPending s.db s.stream limit now outcomes).1
          stream := (dispatchPending s.db s.stream limit now outcomes).2.1 }
  | marked (message : StreamMessage) (messageId : StreamId) (recovered : Bool)
      (workerId : Option UUID) (attemptId : UUID) (now : Time) (hm : message ∈ s.stream) :
      Effect s (.markRunning message messageId recovered workerId attemptId now) { s with
        db := (markRunning s.db (parseInvocationTask messageId message recovered) workerId
          attemptId now).1 }
  | finished (invocationId attemptId : UUID) (attempt : InvocationAttempt)
      (result : RuntimeExecutionResult) (policy : RetryPolicy) (dispatchId : UUID) (now : Time)
      (ha : s.db.attempts.get attemptId = some attempt) (hr : result.status ≠ .running) :
      Effect s (.markFinished invocationId attemptId result policy dispatchId now) { s with
        db := (markFinished s.db invocationId attemptId none result
          (policy.decide result attempt.attemptNumber) dispatchId now).1 }
  | recovered (staleAfterSeconds maxAttempts : Nat) (now : Time) :
      Effect s (.recoverStaleWorkers staleAfterSeconds maxAttempts now) { s with
        db := commitRecovery s.db (readRecovery s.db staleAfterSeconds [] now) maxAttempts }

theorem orUnchanged_cases (db : Database) (r : Except Violation Database) :
    orUnchanged db r = db ∨ r = .ok (orUnchanged db r) := by
  cases r with
  | error v => exact Or.inl rfl
  | ok db' => exact Or.inr rfl

/-- **Every complete call has one of the listed effects.** -/
theorem step_effect {s t : State} {c : Call} (h : step s c = some t) : Effect s c t := by
  cases c with
  | createFunction row =>
    cases h
    cases hi : s.db.functions.insert row with
    | error v => exact .unrelated _ s.db rfl rfl rfl
    | ok functions => exact .unrelated _ { s.db with functions := functions } rfl rfl rfl
  | createFunctionVersion row =>
    cases h
    cases hi : s.db.versions.insert row with
    | error v => exact .unrelated _ s.db rfl rfl rfl
    | ok versions => exact .unrelated _ { s.db with versions := versions } rfl rfl rfl
  | createInvocation request invocationId dispatchId now =>
    cases h
    rcases createInvocation_db s.db request invocationId dispatchId now with hu | ⟨v, db, hi, hu⟩
    · rw [hu]
      exact .unrelated _ s.db rfl rfl rfl
    · rw [hu]
      exact .created request v invocationId dispatchId now db hi
  | dispatchPending limit now outcomes =>
    cases h
    exact .dispatched limit now outcomes
  | markRunning message messageId recovered workerId attemptId now =>
    simp only [step, Option.ite_none_right_eq_some] at h
    obtain ⟨hm, h⟩ := h
    cases h
    exact .marked message messageId recovered workerId attemptId now hm
  | markFinished invocationId attemptId result policy dispatchId now =>
    simp only [step] at h
    cases ha : s.db.attempts.get attemptId with
    | none => simp [ha] at h
    | some attempt =>
      simp only [ha, Option.ite_none_left_eq_some] at h
      obtain ⟨hr, h⟩ := h
      cases h
      exact .finished invocationId attemptId attempt result policy dispatchId now ha hr
  | recoverStaleWorkers staleAfterSeconds maxAttempts now =>
    cases h
    rw [recoverStaleWorkers_db]
    exact .recovered staleAfterSeconds maxAttempts now
  | registerWorker workerId hostname maxConcurrency consumerName now =>
    cases h
    rcases orUnchanged_cases s.db
      (registerWorker s.db workerId hostname maxConcurrency consumerName now) with hu | hu
    · rw [hu]
      exact .unrelated _ s.db rfl rfl rfl
    · obtain ⟨workers, -, hw⟩ := registerWorker_ok hu
      rw [hw]
      exact .unrelated _ { s.db with workers := workers } rfl rfl rfl
  | recordHeartbeat workerId activeInvocations status now =>
    cases h
    obtain ⟨hi, ha, hd⟩ := recordHeartbeat_frame s.db workerId activeInvocations status now
    exact .unrelated _ _ hi ha hd
  | markOffline workerId now =>
    cases h
    obtain ⟨hi, ha, hd⟩ := recordHeartbeat_frame s.db workerId 0 .offline now
    exact .unrelated _ _ hi ha hd
  | markWorkersOffline workerIds =>
    cases h
    exact .unrelated _ _ rfl rfl rfl

/-- The empty platform. -/
def empty : State := ⟨.fresh .empty .empty, []⟩

theorem init_empty : init empty := ⟨.empty, .empty, rfl⟩

/-- One invocation whose first worker stops heartbeating and whose second attempt, started
from a recovered copy of the first message, is running. -/
def lostWorkerRun : List Call :=
  [.createFunction ⟨1, 7, "hello", none⟩,
    .createFunctionVersion (helloVersion 30),
    .createInvocation { ownerId := 7, functionName := "hello", payload := .null } 3 4 0,
    .dispatchPending 100 0 [(.returned, 0)],
    .registerWorker 5 "host" 2 (some "host-1") 0,
    .markRunning ⟨3, 2, 7, 1, 0, seconds 30⟩ 1 false (some 5) 6 0,
    .recoverStaleWorkers 15 3 (seconds 20),
    .markRunning ⟨3, 2, 7, 1, 0, seconds 30⟩ 1 true none 8 (seconds 21)]

end Serverless.Ledger
