import Serverless.Ledger.Numbering

/-!
# Database sessions that outlive a transaction

Two of the worker's sessions carry state from one transaction to the next. The one of
`process_tasks` holds the attempt object from `mark_running` to `mark_finished`, and a
later select keeps the attribute values that object has loaded. The one of
`recover_stale_workers` reads attempts and invocations without locking them and
flushes what it changed at its commit; of the rows it read only those of the stale
workers stay locked. All other calls are complete calls.
-/
namespace Serverless.Sessions

open Serverless.Library Serverless.Model

/-- A call of `recover_stale_workers` between its reads and its commit. -/
structure Recovery where
  read : RecoveryRead
  maxAttempts : Nat

/-- A call of `mark_finished` that did not raise. -/
structure Finish where
  attempt : InvocationAttempt
  result : RuntimeExecutionResult

/-- `held` are the attempt objects of the tasks that are being executed. `finished` is
history only: no step reads it. -/
structure State where
  ledger : Ledger.State
  held : List InvocationAttempt
  recoveries : List Recovery
  finished : List Finish

namespace State

def db (s : State) : Database := s.ledger.db

def withDb (s : State) (db : Database) : State := { s with ledger := { s.ledger with db := db } }

/-- The worker rows that recoveries hold until they commit. -/
def lockedWorkers (s : State) : List UUID := s.recoveries.flatMap (·.read.staleWorkerIds)

/-- The database after a `mark_finished` with the attempt object `a`, and what it returns. -/
def finish (s : State) (a : InvocationAttempt) (result : RuntimeExecutionResult)
    (policy : RetryPolicy) (dispatchId : UUID) (now : Time) :
    Database × Except CompleteError InvocationAttempt :=
  markFinished s.db a.invocationId a.id (some a) result (policy.decide result a.attemptNumber)
    dispatchId now

end State

inductive Event where
  | call (call : Ledger.Call)
  | markRunning (message : StreamMessage) (messageId : StreamId) (recovered : Bool)
      (workerId : Option UUID) (attemptId : UUID) (now : Time)
  | markFinished (task : Nat) (result : RuntimeExecutionResult) (policy : RetryPolicy)
      (dispatchId : UUID) (now : Time)
  | readRecovery (staleAfterSeconds maxAttempts : Nat) (now : Time)
  | commitRecovery (recovery : Nat)
  | abandonTask (task : Nat)
  | abandonRecovery (recovery : Nat)

/-- Which complete calls can go on: those of a task's session go through the events of
their own, and updates of a locked worker row wait. -/
def callable (s : State) : Ledger.Call → Bool
  | .markRunning .. | .markFinished .. => false
  | .recoverStaleWorkers .. => s.recoveries.isEmpty
  | .recordHeartbeat workerId .. | .markOffline workerId _ => workerId ∉ s.lockedWorkers
  | .markWorkersOffline workerIds => workerIds.all fun w => w ∉ s.lockedWorkers
  | .createFunction _ | .createFunctionVersion _ | .createInvocation .. | .dispatchPending ..
  | .registerWorker .. => true

def step (s : State) : Event → Option State
  | .call c =>
    if callable s c then (Ledger.step s.ledger c).map fun l => { s with ledger := l } else none
  | .markRunning message messageId recovered workerId attemptId now =>
    if message ∈ s.ledger.stream then
      let task := parseInvocationTask messageId message recovered
      match markRunning s.db task workerId attemptId now with
      | (db, .ok attempt) => some { s.withDb db with held := s.held ++ [attempt] }
      | (db, .error _) => some (s.withDb db)
    else none
  | .markFinished task result policy dispatchId now =>
    match s.held[task]? with
    | none => none
    | some a =>
      if result.status = .running then none
      else match s.finish a result policy dispatchId now with
        | (db, .ok _) => some { s.withDb db with
            held := s.held.eraseIdx task
            finished := s.finished ++ [⟨a, result⟩] }
        | (db, .error _) => some { s.withDb db with held := s.held.eraseIdx task }
  | .readRecovery staleAfterSeconds maxAttempts now =>
    let read := readRecovery s.db staleAfterSeconds s.lockedWorkers now
    if read.staleWorkers = [] then some s
    else some { s with recoveries := s.recoveries ++ [⟨read, maxAttempts⟩] }
  | .commitRecovery n =>
    (s.recoveries[n]?).map fun r =>
      { s.withDb (commitRecovery s.db r.read r.maxAttempts) with
        recoveries := s.recoveries.eraseIdx n }
  | .abandonTask task => some { s with held := s.held.eraseIdx task }
  | .abandonRecovery n => some { s with recoveries := s.recoveries.eraseIdx n }

def init (s : State) : Prop :=
  Ledger.init s.ledger ∧ s.held = [] ∧ s.recoveries = [] ∧ s.finished = []

def start : State := ⟨Ledger.empty, [], [], []⟩

theorem init_start : init start := ⟨Ledger.init_empty, rfl, rfl, rfl⟩

/-- One invocation, started by a worker whose heartbeat is late. -/
def lateWorker : List Event :=
  [.call (.createFunction ⟨1, 7, "hello", none⟩),
    .call (.createFunctionVersion (helloVersion 30)),
    .call (.createInvocation { ownerId := 7, functionName := "hello", payload := .null } 3 4 0),
    .call (.dispatchPending 100 0 [(.returned, 0)]),
    .call (.registerWorker 5 "host" 2 (some "host-1") 0),
    .markRunning ⟨3, 2, 7, 1, 0, seconds 30⟩ 1 false (some 5) 6 0]

/-- What a step does to the database and to the attempt objects in use. -/
inductive Effect (s : State) : Event → State → Prop where
  | called (c : Ledger.Call) (l : Ledger.State) (hc : callable s c = true)
      (h : Ledger.step s.ledger c = some l) : Effect s (.call c) { s with ledger := l }
  | started (message : StreamMessage) (messageId : StreamId) (recovered : Bool)
      (workerId : Option UUID) (attemptId : UUID) (now : Time) (db : Database)
      (attempt : InvocationAttempt) (hm : message ∈ s.ledger.stream)
      (h : markRunning s.db (parseInvocationTask messageId message recovered) workerId attemptId
        now = (db, .ok attempt)) :
      Effect s (.markRunning message messageId recovered workerId attemptId now)
        { s.withDb db with held := s.held ++ [attempt] }
  | notStarted (message : StreamMessage) (messageId : StreamId) (recovered : Bool)
      (workerId : Option UUID) (attemptId : UUID) (now : Time) (db : Database)
      (error : StartError) (hm : message ∈ s.ledger.stream)
      (h : markRunning s.db (parseInvocationTask messageId message recovered) workerId attemptId
        now = (db, .error error)) :
      Effect s (.markRunning message messageId recovered workerId attemptId now) (s.withDb db)
  | finished (task : Nat) (a : InvocationAttempt) (result : RuntimeExecutionResult)
      (policy : RetryPolicy) (dispatchId : UUID) (now : Time) (db : Database)
      (row : InvocationAttempt) (ha : s.held[task]? = some a) (hr : result.status ≠ .running)
      (h : s.finish a result policy dispatchId now = (db, .ok row)) :
      Effect s (.markFinished task result policy dispatchId now) { s.withDb db with
        held := s.held.eraseIdx task
        finished := s.finished ++ [⟨a, result⟩] }
  | notFinished (task : Nat) (a : InvocationAttempt) (result : RuntimeExecutionResult)
      (policy : RetryPolicy) (dispatchId : UUID) (now : Time) (error : CompleteError)
      (ha : s.held[task]? = some a) (hr : result.status ≠ .running)
      (h : (s.finish a result policy dispatchId now).2 = .error error) :
      Effect s (.markFinished task result policy dispatchId now)
        { s with held := s.held.eraseIdx task }
  | read (staleAfterSeconds maxAttempts : Nat) (now : Time) (recoveries : List Recovery) :
      Effect s (.readRecovery staleAfterSeconds maxAttempts now) { s with recoveries := recoveries }
  | recovered (n : Nat) (r : Recovery) (hr : s.recoveries[n]? = some r) :
      Effect s (.commitRecovery n) { s.withDb (commitRecovery s.db r.read r.maxAttempts) with
        recoveries := s.recoveries.eraseIdx n }
  | abandoned (e : Event) (held : List InvocationAttempt) (recoveries : List Recovery)
      (hh : held ⊆ s.held) : Effect s e { s with held := held, recoveries := recoveries }

/-- **Every step of the sessions has one of the listed effects.** -/
theorem step_effect {s t : State} {e : Event} (h : step s e = some t) : Effect s e t := by
  cases e with
  | call c =>
    simp only [step, Option.ite_none_right_eq_some, Option.map_eq_some_iff] at h
    obtain ⟨hc, l, hl, rfl⟩ := h
    exact .called c l hc hl
  | markRunning message messageId recovered workerId attemptId now =>
    simp only [step, Option.ite_none_right_eq_some] at h
    obtain ⟨hm, h⟩ := h
    rcases hr : markRunning s.db (parseInvocationTask messageId message recovered) workerId
      attemptId now with ⟨db, error | attempt⟩
    · simp only [hr, Option.some.injEq] at h
      exact h ▸ .notStarted _ _ _ _ _ _ db error hm hr
    · simp only [hr, Option.some.injEq] at h
      exact h ▸ .started _ _ _ _ _ _ db attempt hm hr
  | markFinished task result policy dispatchId now =>
    simp only [step] at h
    cases ha : s.held[task]? with
    | none => simp [ha] at h
    | some a =>
      simp only [ha, Option.ite_none_left_eq_some] at h
      obtain ⟨hr, h⟩ := h
      rcases hf : s.finish a result policy dispatchId now with ⟨db, error | row⟩
      · simp only [hf, Option.some.injEq] at h
        obtain rfl := markFinished_error hf
        exact h ▸ .notFinished _ a _ _ _ _ error ha hr (by rw [hf])
      · simp only [hf, Option.some.injEq] at h
        exact h ▸ .finished _ a _ _ _ _ db row ha hr hf
  | readRecovery staleAfterSeconds maxAttempts now =>
    simp only [step] at h
    split at h
    · cases h
      exact .read staleAfterSeconds maxAttempts now s.recoveries
    · cases h
      exact .read staleAfterSeconds maxAttempts now _
  | commitRecovery n =>
    simp only [step, Option.map_eq_some_iff] at h
    obtain ⟨r, hr, rfl⟩ := h
    exact .recovered n r hr
  | abandonTask task =>
    cases h
    exact .abandoned _ _ s.recoveries (List.eraseIdx_subset)
  | abandonRecovery n =>
    cases h
    exact .abandoned _ s.held _ (fun _ ha => ha)

end Serverless.Sessions
