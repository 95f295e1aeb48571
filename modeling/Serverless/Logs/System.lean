import Serverless.Ledger.System
import Serverless.Model.ContainerCalls

/-!
# Attempts and their logs

The calls on the database, with what happens between `mark_running` and `mark_finished`: the
session reads the attempt row again, the executor plans and runs the container, and its
result is recorded. The log files are part of the state. Calls of other processes may come in
between anywhere.
-/
namespace Serverless.Logs

open Serverless.Library Serverless.Model

/-- How far the task of an attempt has come. `held` is the attempt object of its session. -/
inductive Job where
  | planned (held : InvocationAttempt) (plan : Plan)
  | returned (held : InvocationAttempt) (result : RuntimeExecutionResult)
  | finished

/-- `stderr` is history: what the container of an attempt has printed. No step reads it. -/
structure State where
  ledger : Ledger.State
  files : Files (List UInt8)
  jobs : UUID → Option Job
  stderr : UUID → List UInt8

/-- `input` is the text of the input file, `left` what a write that fails leaves in a file. -/
inductive Event where
  | call (c : Ledger.Call)
  | plan (attemptId : UUID) (task : InvocationTask) (now : Time)
  | run (attemptId : UUID) (d : Docker) (input left : List UInt8)
  | finish (attemptId : UUID) (policy : RetryPolicy) (dispatchId : UUID) (now : Time)

/-- `mark_finished` is called for attempts that have been executed only. -/
def isMarkFinished : Ledger.Call → Bool
  | .markFinished .. => true
  | .createFunction _ | .createFunctionVersion _ | .createInvocation .. | .dispatchPending ..
  | .markRunning .. | .recoverStaleWorkers .. | .registerWorker .. | .recordHeartbeat ..
  | .markOffline .. | .markWorkersOffline _ => false

def setJob (s : State) (attemptId : UUID) (job : Job) : State :=
  { s with jobs := Function.update s.jobs attemptId (some job) }

def step (x : DockerRuntimeExecutor) (s : State) : Event → Option State
  | .call c =>
    if isMarkFinished c then none
    else (Ledger.step s.ledger c).map fun ledger => { s with ledger := ledger }
  | .plan attemptId task now =>
    match s.ledger.db.attempts.get attemptId, s.jobs attemptId with
    | some row, none =>
      if row.invocationId = task.invocationId then
        some (setJob s attemptId (.planned row (planExecution s.ledger.db task now)))
      else none
    | _, _ => none
  | .run attemptId d input left =>
    match s.jobs attemptId with
    | some (.planned held plan) =>
      let execution := x.executeCalls d plan
      some { setJob s attemptId (.returned held (processedResult execution)) with
        files := x.applyCalls d input left held.invocationId s.files execution.calls
        stderr := Function.update s.stderr attemptId d.stderrBytes }
    | _ => none
  | .finish attemptId policy dispatchId now =>
    match s.jobs attemptId with
    | some (.returned held result) =>
      let db := (markFinished s.ledger.db held.invocationId attemptId (some held) result
        (policy.decide result held.attemptNumber) dispatchId now).1
      some { setJob s attemptId .finished with ledger := { s.ledger with db := db } }
    | _ => none

/-- Nothing has been invoked. There may be files already. -/
def init (s : State) : Prop := Ledger.init s.ledger ∧ s.jobs = fun _ => none

def empty : State := ⟨Ledger.empty, fun _ => none, fun _ => none, fun _ => []⟩

theorem init_empty : init empty := ⟨Ledger.init_empty, rfl⟩

end Serverless.Logs
