import Serverless.Model.Domain

/-!
# Worker registration and heartbeats

`worker/app/services/heartbeat.py`. A call that does not find its worker row raises
`WorkerNotFoundError`, which is `none` here.
-/
namespace Serverless.Model

open Serverless.Library

structure WorkerRuntimeState where
  activeInvocations : Nat := 0
  status : WorkerStatus := .idle
  deriving DecidableEq

namespace WorkerRuntimeState

def markTaskStarted (r : WorkerRuntimeState) : WorkerRuntimeState where
  activeInvocations := r.activeInvocations + 1
  status := .running

/-- Natural subtraction is the source's `max(0, active_invocations - 1)`. -/
def markTaskFinished (r : WorkerRuntimeState) : WorkerRuntimeState where
  activeInvocations := r.activeInvocations - 1
  status := if r.activeInvocations - 1 = 0 then .idle else .running

end WorkerRuntimeState

def newWorker (workerId : UUID) (hostname : String) (maxConcurrency : Nat)
    (consumerName : Option String) (now : Time) : Worker where
  id := workerId
  hostname := hostname
  consumerName := consumerName
  status := .idle
  lastHeartbeat := now
  activeInvocations := 0
  maxConcurrency := maxConcurrency
  startedAt := now

def registerWorker (db : Database) (workerId : UUID) (hostname : String) (maxConcurrency : Nat)
    (consumerName : Option String) (now : Time) : Except Violation Database := do
  let workers ← db.workers.insert (newWorker workerId hostname maxConcurrency consumerName now)
  pure { db with workers := workers }

def recordHeartbeat (db : Database) (workerId : UUID) (activeInvocations : Nat)
    (status : WorkerStatus) (now : Time) : Option Database :=
  (db.workers.get workerId).map fun _ =>
    { db with
      workers := db.workers.modify workerId
        (fun w => { w with
          lastHeartbeat := now
          activeInvocations := activeInvocations
          status := status })
        fun _ => ⟨rfl, rfl⟩ }

def markOffline (db : Database) (workerId : UUID) (now : Time) : Option Database :=
  recordHeartbeat db workerId 0 .offline now

theorem registerWorker_ok {db db' : Database} {workerId : UUID} {hostname : String}
    {maxConcurrency : Nat} {consumerName : Option String} {now : Time}
    (h : registerWorker db workerId hostname maxConcurrency consumerName now = .ok db') :
    ∃ workers,
      db.workers.insert (newWorker workerId hostname maxConcurrency consumerName now) =
        .ok workers ∧ db' = { db with workers := workers } := by
  unfold registerWorker at h
  cases hw : db.workers.insert (newWorker workerId hostname maxConcurrency consumerName now) with
  | error v => simp [hw, bind, Except.bind] at h
  | ok workers =>
    refine ⟨workers, rfl, ?_⟩
    simpa [hw, bind, Except.bind, pure, Except.pure, eq_comm] using h

/-- A heartbeat writes to the worker table only. -/
theorem recordHeartbeat_some {db db' : Database} {workerId : UUID} {activeInvocations : Nat}
    {status : WorkerStatus} {now : Time}
    (h : recordHeartbeat db workerId activeInvocations status now = some db') :
    ∃ workers, db' = { db with workers := workers } := by
  obtain ⟨_, -, rfl⟩ := Option.map_eq_some_iff.mp h
  exact ⟨_, rfl⟩

theorem recordHeartbeat_frame (db : Database) (workerId : UUID) (activeInvocations : Nat)
    (status : WorkerStatus) (now : Time) :
    let db' := (recordHeartbeat db workerId activeInvocations status now).getD db
    db'.invocations = db.invocations ∧ db'.attempts = db.attempts ∧
      db'.dispatches = db.dispatches := by
  unfold recordHeartbeat
  cases db.workers.get workerId <;> exact ⟨rfl, rfl, rfl⟩

/-- The row after a heartbeat. -/
def Worker.beat (activeInvocations : Nat) (status : WorkerStatus) (now : Time) (w : Worker) :
    Worker :=
  { w with
    lastHeartbeat := now
    activeInvocations := activeInvocations
    status := status }

theorem mem_recordHeartbeat {db db' : Database} {workerId : UUID} {activeInvocations : Nat}
    {status : WorkerStatus} {now : Time}
    (h : recordHeartbeat db workerId activeInvocations status now = some db') {w' : Worker} :
    w' ∈ db'.workers ↔ ∃ w ∈ db.workers,
      (if w.id = workerId then w.beat activeInvocations status now else w) = w' := by
  obtain ⟨_, -, rfl⟩ := Option.map_eq_some_iff.mp h
  exact Table.mem_modify (by exact fun _ => ⟨rfl, rfl⟩)

end Serverless.Model
