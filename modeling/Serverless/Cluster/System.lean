import Serverless.Cluster.Worker
import Serverless.Library.ConsumerGroup
import Serverless.Library.Runs
import Serverless.Model.Invocations
import Serverless.Model.Outbox

/-!
# The cluster

PostgreSQL, the Redis stream with its consumer group, any number of dispatchers and
any number of workers. One step is one database transaction or one Redis command of
one process, or a move of a process on its own; in between a process may stop for
good. All processes read one clock.
-/
namespace Serverless.Cluster

open Serverless.Library Serverless.Model

abbrev Group := ConsumerGroup StreamMessage String

/-- A batch of `dispatch_pending` before its commit: row objects to publish, and row objects
after their turn. The rows of all of them are locked. -/
structure Batch where
  todo : List InvocationDispatch
  done : List InvocationDispatch

def Batch.ids (b : Batch) : List UUID := (b.done ++ b.todo).map (·.id)

/-- `origin` says from which entry an attempt was started, `rolledBack` lists the rows that
batches had published when they were rolled back, and `addedOnFailure` the rows whose publish
failed after the entry had been added. These three are history: no step reads them. -/
structure State where
  db : Database
  group : Group
  clock : Time
  batches : List Batch
  processes : List Process
  origin : UUID → StreamId
  rolledBack : List UUID
  addedOnFailure : List UUID

/-- The worker rows and consumer names of the processes. -/
def State.crew (s : State) : List (UUID × String) :=
  s.processes.map fun p => (p.workerId, p.consumerName)

/-- Every task some process has a copy of. -/
def State.items (s : State) : List (InvocationTask × Stage) := s.processes.flatMap Process.items

namespace State

def lockedDispatches (s : State) : List UUID := s.batches.flatMap Batch.ids

def setProcess (s : State) (n : Nat) (p : Process) : State :=
  { s with processes := s.processes.set n p }

end State

/-- The task a worker makes of an entry it has been handed. -/
def taskOf (g : Group) (recovered : Bool) (id : StreamId) : Option InvocationTask :=
  (g.entry id).map fun e => parseInvocationTask id e.fields recovered

theorem taskOf_some {g : Group} {recovered : Bool} {id : StreamId} {task : InvocationTask}
    (h : taskOf g recovered id = some task) :
    task.streamMessageId = id ∧ task.recovered = recovered := by
  obtain ⟨e, -, rfl⟩ := Option.map_eq_some_iff.mp h
  exact ⟨rfl, rfl⟩

/-- Whether `process_tasks` acknowledges the message when `mark_running` raises. -/
def acknowledges : StartError → Bool
  | .deadlineExceeded _ | .obsoleteTask .. => true
  | .cannotStart _ (some status) => decide status.isTerminal
  | .cannotStart _ none | .integrity _ => false

/-! ## Workers -/

inductive WorkerEvent where
  | heartbeat
  | recoverStaleWorkers
  | proceed
  | xpending
  | xclaim
  | xautoclaim
  | markWorkersOffline
  | xreadgroup
  | markRunning (coroutine : Nat) (attemptId : UUID)
  | refresh (coroutine : Nat)
  | execute (coroutine : Nat) (result : RuntimeExecutionResult)
  | markFinished (coroutine : Nat) (jitter : ℚ → ℚ) (dispatchId : UUID)
  | xack (coroutine : Nat)
  | failTask (coroutine : Nat)
  | failIteration
  | interrupt
  | markOffline
  | stop

/-- The next `mark_running` of a coroutine. -/
def startTask (s : State) (p : Process) (j : Nat) (c : Coroutine) (attemptId : UUID) :
    State × Process :=
  match markRunning s.db c.task (some p.workerId) attemptId s.clock with
  | (db, .ok attempt) =>
    ({ s with db := db, origin := Function.update s.origin attempt.id c.task.streamMessageId },
      p.setStage j c (.refreshing attempt))
  | (db, .error e) =>
    ({ s with db := db }, if acknowledges e then p.setStage j c .acking else p.failed j c)

/-- The next `mark_finished` of a coroutine. -/
def finishTask (s : State) (p : Process) (j : Nat) (c : Coroutine) (attempt : InvocationAttempt)
    (result : RuntimeExecutionResult) (jitter : ℚ → ℚ) (dispatchId : UUID) : State × Process :=
  let policy : RetryPolicy := { maxAttempts := p.config.maxAttempts, jitter := jitter }
  match markFinished s.db c.task.invocationId attempt.id (some attempt) result
      (policy.decide result attempt.attemptNumber) dispatchId s.clock with
  | (db, .ok _) => ({ s with db := db }, p.setStage j c .acking)
  | (db, .error _) => ({ s with db := db }, p.failed j c)

/-- One step of a worker process: what it leaves of the shared state, and its own new state. -/
def workerStep (s : State) (p : Process) : WorkerEvent → Option (State × Process)
  | .heartbeat =>
    match p.loop with
    | .exited => none
    | _ => (recordHeartbeat s.db p.workerId p.runtime.activeInvocations p.runtime.status
        s.clock).map fun db => ({ s with db := db }, p)
  | .recoverStaleWorkers =>
    match p.loop with
    | .start =>
      match recoverStaleWorkers s.db p.config.staleWorkerSeconds p.config.maxAttempts s.clock with
      | (db, .ok scan) => some ({ s with db := db }, p.goTo (.afterScan scan))
      -- the commit is refused: the call raises and the iteration ends
      | (_, .error _) => some (s, p.goTo .start)
    | _ => none
  | .proceed => p.proceed.map fun p' => (s, p')
  | .xpending =>
    match p.loop with
    | .claiming scan recovered (name :: names) tasks =>
      if p.config.claimCount ≤ tasks.length then none
      else match s.group.pendingOf name 0 (p.config.claimCount - tasks.length) s.clock with
        | [] => some (s, p.goTo (.claiming scan recovered names tasks))
        | id :: ids => some (s, p.goTo (.listed scan recovered names tasks name (id :: ids)))
    | _ => none
  | .xclaim =>
    match p.loop with
    | .listed scan recovered names tasks _ ids =>
      let claimed := (s.group.claimedIds 0 ids s.clock).filterMap (taskOf s.group true)
      some ({ s with group := s.group.claim p.consumerName 0 ids s.clock },
        p.goTo (.claiming scan recovered names (tasks ++ claimed)))
    | _ => none
  | .xautoclaim =>
    match p.loop with
    | .autoclaiming scan recovered startId =>
      if p.config.claimCount = 0 then none
      else
        let minIdle := seconds p.config.staleWorkerSeconds
        let (ids, nextStartId) :=
          s.group.autoClaimIds minIdle startId p.config.claimCount s.clock
        let claimed := ids.filterMap (taskOf s.group true)
        some ({ s with group := s.group.claim p.consumerName minIdle ids s.clock },
          p.goTo (.processing claimed (.autoclaim scan (recovered + claimed.length) startId
            nextStartId (decide (claimed ≠ [])))))
    | _ => none
  | .markWorkersOffline =>
    match p.loop with
    | .offlining scan recovered =>
      some ({ s with db := markWorkersOffline s.db scan.staleWorkerIds },
        p.goTo (.afterRecovery recovered))
    | _ => none
  | .xreadgroup =>
    match p.loop with
    | .reading =>
      let read := (s.group.nextIds p.config.maxConcurrency).filterMap (taskOf s.group false)
      some ({ s with group := s.group.read p.consumerName p.config.maxConcurrency s.clock },
        p.goTo (.processing read .finish))
    | _ => none
  | .markRunning j attemptId =>
    match p.coroutines[j]? with
    | some ⟨task, .ready, awaited⟩ => some (startTask s p j ⟨task, .ready, awaited⟩ attemptId)
    | _ => none
  | .refresh j =>
    match p.coroutines[j]? with
    | some ⟨task, .refreshing attempt, awaited⟩ =>
      some (s, { p.setStage j ⟨task, .refreshing attempt, awaited⟩
          (.executing (refreshAttempt s.db attempt)) with runtime := p.runtime.markTaskStarted })
    | _ => none
  | .execute j result =>
    match p.coroutines[j]? with
    | some ⟨task, .executing attempt, awaited⟩ =>
      if result.status = .running then none
      else some (s, { p.setStage j ⟨task, .executing attempt, awaited⟩
          (.finishing attempt result) with runtime := p.runtime.markTaskFinished })
    | _ => none
  | .markFinished j jitter dispatchId =>
    match p.coroutines[j]? with
    | some ⟨task, .finishing attempt result, awaited⟩ =>
      some (finishTask s p j ⟨task, .finishing attempt result, awaited⟩ attempt result jitter
        dispatchId)
    | _ => none
  | .xack j =>
    match p.coroutines[j]? with
    | some ⟨task, .acking, _⟩ =>
      some ({ s with group := s.group.ack task.streamMessageId }, p.finished j)
    | _ => none
  | .failTask j =>
    match p.coroutines[j]? with
    -- an exception of the runtime becomes a failed result
    | some ⟨_, .executing _, _⟩ | none => none
    | some c => some (s, p.failed j c)
  | .failIteration => p.failIteration.map fun p' => (s, p')
  | .interrupt => p.interrupt.map fun p' => (s, p')
  | .markOffline =>
    match p.loop with
    | .stopping =>
      (markOffline s.db p.workerId s.clock).map fun db => ({ s with db := db }, p.goTo .exited)
    | _ => none
  | .stop => some (s, p.stop)

/-! ## Dispatchers -/

/-- Append the message of a publish, if it put one on the stream. -/
def addMessage (g : Group) (message : Option StreamMessage) (now : Time) : Group :=
  match message with
  | some m => g.add m now
  | none => g

/-- One turn of the publish loop of a batch, for the row `d`. -/
def publishTurn (s : State) (b : Nat) (d : InvocationDispatch)
    (todo done : List InvocationDispatch) (outcome : PublishOutcome) : State :=
  let turn := publishDispatch s.db d outcome (s.group.entries.length + 1) s.clock
  { s with
    batches := s.batches.set b ⟨todo, done ++ [turn.1]⟩
    group := addMessage s.group turn.2 s.clock
    addedOnFailure :=
      if outcome = .raisedAfterAdd ∧ turn.2.isSome then s.addedOnFailure ++ [d.id]
      else s.addedOnFailure }

/-- The rows a batch has published. -/
def Batch.published (b : Batch) : List UUID :=
  (b.done.filter fun d => d.publishedAt.isSome).map (·.id)

inductive Event where
  | tick (now : Time)
  | createInvocation (request : CreateRequest) (version : FunctionVersion)
      (invocationId dispatchId : UUID) (queuedAt : Time)
  | select (limit : Nat)
  | publish (batch : Nat) (outcome : PublishOutcome)
  | commit (batch : Nat)
  | rollback (batch : Nat)
  | register (workerId : UUID) (hostname consumerName : String) (persisted : Bool)
      (config : WorkerConfig)
  | worker (process : Nat) (event : WorkerEvent)

def step (s : State) : Event → Option State
  | .tick now => if s.clock ≤ now then some { s with clock := now } else none
  | .createInvocation request version invocationId dispatchId queuedAt =>
    if queuedAt ≤ s.clock then
      match insertInvocation s.db request version invocationId dispatchId queuedAt with
      | .ok db => some { s with db := db }
      | .error _ => none
    else none
  | .select limit =>
    some { s with
      batches := s.batches ++ [⟨s.db.dueDispatches s.clock limit s.lockedDispatches, []⟩] }
  | .publish b outcome =>
    match s.batches[b]? with
    | some ⟨d :: todo, done⟩ => some (publishTurn s b d todo done outcome)
    | _ => none
  | .commit b =>
    match s.batches[b]? with
    | some ⟨[], done⟩ =>
      some { s with db := commitDispatches s.db done, batches := s.batches.eraseIdx b }
    | _ => none
  | .rollback b =>
    (s.batches[b]?).map fun batch => { s with
      batches := s.batches.eraseIdx b
      rolledBack := s.rolledBack ++ batch.published }
  | .register workerId hostname consumerName persisted config =>
    -- consumer names end in random digits and are taken to be distinct
    if consumerName ∈ s.processes.map (·.consumerName) then none
    else match registerWorker s.db workerId hostname config.maxConcurrency
        (if persisted then some consumerName else none) s.clock with
      | .ok db => some { s with
          db := db
          processes := s.processes ++ [⟨workerId, consumerName, config, {}, .start, []⟩] }
      | .error _ => none
  | .worker n event =>
    (s.processes[n]?).bind fun p =>
      (workerStep s p event).map fun (t, p') => t.setProcess n p'

/-- Functions and versions may be registered; nothing has been invoked, nothing runs. -/
def init (s : State) : Prop :=
  (∃ functions versions, s.db = .fresh functions versions) ∧ s.group = .empty ∧ s.batches = [] ∧
    s.processes = [] ∧ s.rolledBack = [] ∧ s.addedOnFailure = []

def empty : State := ⟨.fresh .empty .empty, .empty, 0, [], [], fun _ => 0, [], []⟩

theorem init_empty : init empty := ⟨⟨.empty, .empty, rfl⟩, rfl, rfl, rfl, rfl, rfl⟩

/-! ## What a worker step can do -/

/-- Steps of a worker that leave the shared state alone. -/
inductive Own (s : State) (p : Process) : Process → Prop where
  | proceeded (p' : Process) (h : p.proceed = some p') : Own s p p'
  | skipped (scan : RecoverySummary) (recovered : Nat) (name : String) (names : List String)
      (tasks : List InvocationTask) (hl : p.loop = .claiming scan recovered (name :: names) tasks) :
      Own s p (p.goTo (.claiming scan recovered names tasks))
  | listed (scan : RecoverySummary) (recovered : Nat) (name : String) (names : List String)
      (tasks : List InvocationTask) (hl : p.loop = .claiming scan recovered (name :: names) tasks) :
      Own s p (p.goTo (.listed scan recovered names tasks name
        (s.group.pendingOf name 0 (p.config.claimCount - tasks.length) s.clock)))
  | refreshed (j : Nat) (c : Coroutine) (attempt : InvocationAttempt)
      (hc : p.coroutines[j]? = some c) (hst : c.stage = .refreshing attempt) :
      Own s p { p.setStage j c (.executing (refreshAttempt s.db attempt)) with
        runtime := p.runtime.markTaskStarted }
  | executed (j : Nat) (c : Coroutine) (attempt : InvocationAttempt)
      (result : RuntimeExecutionResult) (hc : p.coroutines[j]? = some c)
      (hst : c.stage = .executing attempt) (hr : result.status ≠ .running) :
      Own s p { p.setStage j c (.finishing attempt result) with
        runtime := p.runtime.markTaskFinished }
  | failed (j : Nat) (c : Coroutine) (hc : p.coroutines[j]? = some c) : Own s p (p.failed j c)
  | iterationFailed (p' : Process) (h : p.failIteration = some p') : Own s p p'
  | interrupted (p' : Process) (h : p.interrupt = some p') : Own s p p'
  | stopped : Own s p p.stop

/-- The effects of a worker step on the shared state and on the process. -/
inductive WorkerEffect (s : State) (p : Process) : WorkerEvent → State → Process → Prop where
  | own (e : WorkerEvent) (p' : Process) (h : Own s p p') : WorkerEffect s p e s p'
  | heartbeat (db : Database) (h : recordHeartbeat s.db p.workerId p.runtime.activeInvocations
      p.runtime.status s.clock = some db) : WorkerEffect s p .heartbeat { s with db := db } p
  | scanned (scan : RecoverySummary) (hl : p.loop = .start)
      (hscan : (recoverStaleWorkers s.db p.config.staleWorkerSeconds p.config.maxAttempts
        s.clock).2 = .ok scan) : WorkerEffect s p .recoverStaleWorkers
      { s with
        db := (recoverStaleWorkers s.db p.config.staleWorkerSeconds p.config.maxAttempts
          s.clock).1 }
      (p.goTo (.afterScan scan))
  | claimed (scan : RecoverySummary) (recovered : Nat) (names : List String)
      (tasks : List InvocationTask) (consumer : String) (ids : List StreamId)
      (hl : p.loop = .listed scan recovered names tasks consumer ids) :
      WorkerEffect s p .xclaim { s with group := s.group.claim p.consumerName 0 ids s.clock }
        (p.goTo (.claiming scan recovered names
          (tasks ++ (s.group.claimedIds 0 ids s.clock).filterMap (taskOf s.group true))))
  | autoclaimed (scan : RecoverySummary) (recovered : Nat) (startId : StreamId)
      (ids : List StreamId) (nextStartId : StreamId) (claimed : List InvocationTask)
      (hl : p.loop = .autoclaiming scan recovered startId)
      (h : s.group.autoClaimIds (seconds p.config.staleWorkerSeconds) startId
        p.config.claimCount s.clock = (ids, nextStartId))
      (hc : claimed = ids.filterMap (taskOf s.group true)) :
      WorkerEffect s p .xautoclaim
        { s with
          group := s.group.claim p.consumerName (seconds p.config.staleWorkerSeconds) ids s.clock }
        (p.goTo (.processing claimed (.autoclaim scan (recovered + claimed.length) startId
          nextStartId (decide (claimed ≠ [])))))
  | offlined (scan : RecoverySummary) (recovered : Nat) (hl : p.loop = .offlining scan recovered) :
      WorkerEffect s p .markWorkersOffline
        { s with db := markWorkersOffline s.db scan.staleWorkerIds }
        (p.goTo (.afterRecovery recovered))
  | read (hl : p.loop = .reading) : WorkerEffect s p .xreadgroup
      { s with group := s.group.read p.consumerName p.config.maxConcurrency s.clock }
      (p.goTo (.processing ((s.group.nextIds p.config.maxConcurrency).filterMap
        (taskOf s.group false)) .finish))
  | started (j : Nat) (c : Coroutine) (attemptId : UUID) (db : Database)
      (attempt : InvocationAttempt) (hc : p.coroutines[j]? = some c) (hst : c.stage = .ready)
      (h : markRunning s.db c.task (some p.workerId) attemptId s.clock = (db, .ok attempt)) :
      WorkerEffect s p (.markRunning j attemptId)
        { s with
          db := db
          origin := Function.update s.origin attempt.id c.task.streamMessageId }
        (p.setStage j c (.refreshing attempt))
  | dismissed (j : Nat) (c : Coroutine) (attemptId : UUID) (db : Database) (error : StartError)
      (hc : p.coroutines[j]? = some c) (hst : c.stage = .ready)
      (h : markRunning s.db c.task (some p.workerId) attemptId s.clock = (db, .error error))
      (ha : acknowledges error = true) :
      WorkerEffect s p (.markRunning j attemptId) { s with db := db } (p.setStage j c .acking)
  | notStarted (j : Nat) (c : Coroutine) (attemptId : UUID) (db : Database) (error : StartError)
      (hc : p.coroutines[j]? = some c) (hst : c.stage = .ready)
      (h : markRunning s.db c.task (some p.workerId) attemptId s.clock = (db, .error error))
      (ha : acknowledges error = false) :
      WorkerEffect s p (.markRunning j attemptId) { s with db := db } (p.failed j c)
  | finished (j : Nat) (c : Coroutine) (attempt : InvocationAttempt)
      (result : RuntimeExecutionResult) (jitter : ℚ → ℚ) (dispatchId : UUID) (db : Database)
      (row : InvocationAttempt) (hc : p.coroutines[j]? = some c)
      (hst : c.stage = .finishing attempt result)
      (h : markFinished s.db c.task.invocationId attempt.id (some attempt) result
        (RetryPolicy.decide { maxAttempts := p.config.maxAttempts, jitter := jitter } result
          attempt.attemptNumber) dispatchId s.clock = (db, .ok row)) :
      WorkerEffect s p (.markFinished j jitter dispatchId) { s with db := db }
        (p.setStage j c .acking)
  | acked (j : Nat) (c : Coroutine) (hc : p.coroutines[j]? = some c) (hst : c.stage = .acking) :
      WorkerEffect s p (.xack j) { s with group := s.group.ack c.task.streamMessageId }
        (p.finished j)
  | shutDown (db : Database) (hl : p.loop = .stopping)
      (h : markOffline s.db p.workerId s.clock = some db) :
      WorkerEffect s p .markOffline { s with db := db } (p.goTo .exited)

private theorem startTask_effect {s : State} {p : Process} {j : Nat} {c : Coroutine}
    (attemptId : UUID) (hc : p.coroutines[j]? = some c) (hst : c.stage = .ready) :
    WorkerEffect s p (.markRunning j attemptId) (startTask s p j c attemptId).1
      (startTask s p j c attemptId).2 := by
  unfold startTask
  rcases h : markRunning s.db c.task (some p.workerId) attemptId s.clock with ⟨db, error | attempt⟩
  · dsimp only
    cases ha : acknowledges error with
    | true =>
      rw [if_pos rfl]
      exact .dismissed j c attemptId db error hc hst h ha
    | false =>
      rw [if_neg Bool.false_ne_true]
      exact .notStarted j c attemptId db error hc hst h ha
  · exact .started j c attemptId db attempt hc hst h

private theorem finishTask_effect {s : State} {p : Process} {j : Nat} {c : Coroutine}
    {attempt : InvocationAttempt} {result : RuntimeExecutionResult} (jitter : ℚ → ℚ)
    (dispatchId : UUID) (hc : p.coroutines[j]? = some c)
    (hst : c.stage = .finishing attempt result) :
    WorkerEffect s p (.markFinished j jitter dispatchId)
      (finishTask s p j c attempt result jitter dispatchId).1
      (finishTask s p j c attempt result jitter dispatchId).2 := by
  unfold finishTask
  dsimp only
  split
  · rename_i db row h
    exact .finished j c attempt result jitter dispatchId db row hc hst h
  · rename_i db error h
    obtain rfl := markFinished_error h
    exact .own _ _ (.failed j c hc)

/-- **Every worker step has one of the listed effects.** -/
theorem workerStep_effect {s t : State} {p p' : Process} {e : WorkerEvent}
    (h : workerStep s p e = some (t, p')) : WorkerEffect s p e t p' := by
  cases e with
  | heartbeat =>
    simp only [workerStep] at h
    split at h
    · cases h
    · obtain ⟨db, hdb, he⟩ := Option.map_eq_some_iff.mp h
      cases he
      exact .heartbeat db hdb
  | recoverStaleWorkers =>
    simp only [workerStep] at h
    split at h
    · rename_i hl
      split at h
      · rename_i db scan hscan
        cases h
        have hdb := congrArg Prod.fst hscan
        rw [← show _ = db from hdb]
        exact .scanned scan hl (congrArg Prod.snd hscan)
      · cases h
        exact .own _ _ (.iterationFailed _ (by rw [Process.failIteration, hl]))
    · cases h
  | proceed =>
    obtain ⟨q, hq, he⟩ := Option.map_eq_some_iff.mp h
    cases he
    exact .own _ _ (.proceeded p' hq)
  | xpending =>
    simp only [workerStep] at h
    split at h
    · rename_i scan recovered name names tasks hl
      split at h
      · cases h
      · split at h
        · cases h
          exact .own _ _ (.skipped scan recovered name names tasks hl)
        · rename_i id ids hids
          cases h
          rw [← hids]
          exact .own _ _ (.listed scan recovered name names tasks hl)
    · cases h
  | xclaim =>
    simp only [workerStep] at h
    split at h
    · rename_i scan recovered names tasks consumer ids hl
      cases h
      exact .claimed scan recovered names tasks consumer ids hl
    · cases h
  | xautoclaim =>
    simp only [workerStep] at h
    split at h
    · rename_i scan recovered startId hl
      split at h
      · cases h
      · cases h
        exact .autoclaimed scan recovered startId _ _ _ hl rfl rfl
    · cases h
  | markWorkersOffline =>
    simp only [workerStep] at h
    split at h
    · rename_i scan recovered hl
      cases h
      exact .offlined scan recovered hl
    · cases h
  | xreadgroup =>
    simp only [workerStep] at h
    split at h
    · rename_i hl
      cases h
      exact .read hl
    · cases h
  | markRunning j attemptId =>
    simp only [workerStep] at h
    split at h
    · rename_i task awaited hc
      have heff := startTask_effect (s := s) attemptId hc rfl
      rw [Option.some.inj h] at heff
      exact heff
    · cases h
  | refresh j =>
    simp only [workerStep] at h
    split at h
    · rename_i task attempt awaited hc
      cases h
      exact .own _ _ (.refreshed j _ attempt hc rfl)
    · cases h
  | execute j result =>
    simp only [workerStep] at h
    split at h
    · rename_i task attempt awaited hc
      split at h
      · cases h
      · rename_i hr
        cases h
        exact .own _ _ (.executed j _ attempt result hc rfl hr)
    · cases h
  | markFinished j jitter dispatchId =>
    simp only [workerStep] at h
    split at h
    · rename_i task attempt result awaited hc
      have heff := finishTask_effect (s := s) jitter dispatchId hc rfl
      rw [Option.some.inj h] at heff
      exact heff
    · cases h
  | xack j =>
    simp only [workerStep] at h
    split at h
    · rename_i task awaited hc
      cases h
      exact .acked j _ hc rfl
    · cases h
  | failTask j =>
    simp only [workerStep] at h
    split at h
    · cases h
    · cases h
    · rename_i c _ hc
      cases h
      exact .own _ _ (.failed j c hc)
  | failIteration =>
    obtain ⟨q, hq, he⟩ := Option.map_eq_some_iff.mp h
    cases he
    exact .own _ _ (.iterationFailed p' hq)
  | interrupt =>
    obtain ⟨q, hq, he⟩ := Option.map_eq_some_iff.mp h
    cases he
    exact .own _ _ (.interrupted p' hq)
  | markOffline =>
    simp only [workerStep] at h
    split at h
    · rename_i hl
      obtain ⟨db, hdb, he⟩ := Option.map_eq_some_iff.mp h
      cases he
      exact .shutDown db hl hdb
    · cases h
  | stop =>
    cases h
    exact .own _ _ .stopped

/-- How a coroutine goes on without touching the shared state. -/
inductive StageMove (db : Database) : Stage → Stage → Prop where
  | refreshed (a : InvocationAttempt) :
      StageMove db (.refreshing a) (.executing (refreshAttempt db a))
  | executed (a : InvocationAttempt) (result : RuntimeExecutionResult)
      (hr : result.status ≠ .running) : StageMove db (.executing a) (.finishing a result)

/-- A step of a worker on its own drops tasks, or moves one of them on. -/
theorem Own.items {s : State} {p p' : Process} (h : Own s p p') :
    p'.items.Subperm p.items ∨ ∃ j c stage, p.coroutines[j]? = some c ∧
      StageMove s.db c.stage stage ∧ p'.items.Perm ((c.task, stage) :: p.others j) := by
  cases h with
  | proceeded p' h => exact Or.inl (Process.items_proceed h)
  | skipped scan recovered name names tasks hl =>
    refine Or.inl (List.Perm.subperm ?_)
    simp only [Process.items, Process.goTo, hl, Loop.tasks]
    exact List.Perm.refl _
  | listed scan recovered name names tasks hl =>
    refine Or.inl (List.Perm.subperm ?_)
    simp only [Process.items, Process.goTo, hl, Loop.tasks]
    exact List.Perm.refl _
  | refreshed j c attempt hc hst =>
    exact Or.inr ⟨j, c, _, hc, hst ▸ .refreshed attempt, Process.items_setStage hc _⟩
  | executed j c attempt result hc hst hr =>
    exact Or.inr ⟨j, c, _, hc, hst ▸ .executed attempt result hr, Process.items_setStage hc _⟩
  | failed j c hc => exact Or.inl (Process.items_failed.trans (Process.others_subperm hc))
  | iterationFailed p' h => exact Or.inl (Process.items_failIteration h)
  | interrupted p' h => exact Or.inl (Process.items_interrupt h)
  | stopped => exact Or.inl List.nil_subperm

theorem Process.proceed_ident {p p' : Process} (h : p.proceed = some p') :
    (p'.workerId, p'.consumerName) = (p.workerId, p.consumerName) := by
  unfold Process.proceed at h
  repeat' split at h
  all_goals cases h
  all_goals rfl

theorem Process.failed_ident (p : Process) (j : Nat) (c : Coroutine) :
    ((p.failed j c).workerId, (p.failed j c).consumerName) = (p.workerId, p.consumerName) := by
  unfold Process.failed
  split <;> rfl

/-- A process keeps its worker row and its consumer name. -/
theorem WorkerEffect.ident {s u : State} {p p' : Process} {e : WorkerEvent}
    (h : WorkerEffect s p e u p') :
    (p'.workerId, p'.consumerName) = (p.workerId, p.consumerName) ∧ u.processes = s.processes := by
  cases h with
  | own e p' h =>
    refine ⟨?_, rfl⟩
    cases h with
    | proceeded p' h => exact Process.proceed_ident h
    | skipped | listed | refreshed | executed | stopped => rfl
    | failed j c => exact Process.failed_ident p j c
    | iterationFailed p' h =>
      unfold Process.failIteration at h
      split at h <;> cases h <;> rfl
    | interrupted p' h =>
      unfold Process.interrupt at h
      split at h <;> cases h
      rfl
  | notStarted j c => exact ⟨Process.failed_ident p j c, rfl⟩
  | heartbeat | scanned | claimed | autoclaimed | offlined | read | started | dismissed | finished
  | acked | shutDown => exact ⟨rfl, rfl⟩

/-- The crew does not change with a worker step. -/
theorem crew_setProcess {s u : State} {n : Nat} {p p' : Process} {e : WorkerEvent}
    (hp : s.processes[n]? = some p) (h : WorkerEffect s p e u p') :
    (u.setProcess n p').crew = s.crew := by
  obtain ⟨hid, hproc⟩ := h.ident
  unfold State.crew State.setProcess
  rw [hproc, List.map_set, hid]
  refine List.ext_getElem? fun k => ?_
  rw [List.getElem?_set]
  split
  · rename_i hk
    subst hk
    obtain ⟨hlt, rfl⟩ := List.getElem?_eq_some_iff.mp hp
    simp [hlt]
  · rfl

/-- The tasks at hand of the other processes. -/
def State.elsewhere (s : State) (n : Nat) : List (InvocationTask × Stage) :=
  (s.processes.eraseIdx n).flatMap Process.items

section Items

variable {s u : State} {n : Nat} {p p' : Process} {e : WorkerEvent}

/-- The tasks at hand before and after a worker step. -/
theorem items_setProcess (hp : s.processes[n]? = some p) (h : WorkerEffect s p e u p') :
    s.items.Perm (p.items ++ s.elsewhere n) ∧
    (u.setProcess n p').items.Perm (p'.items ++ s.elsewhere n) := by
  obtain ⟨-, hproc⟩ := h.ident
  obtain ⟨hlt, rfl⟩ := List.getElem?_eq_some_iff.mp hp
  constructor
  · exact (List.getElem_cons_eraseIdx_perm hlt).symm.flatMap_right _
  · unfold State.items State.setProcess
    rw [hproc]
    exact (List.set_perm_cons_eraseIdx hlt p').flatMap_right _

/-- The process has dropped tasks at most. -/
theorem items_dropped (hp : s.processes[n]? = some p) (h : WorkerEffect s p e u p')
    (hi : p'.items.Subperm p.items) : (u.setProcess n p').items.Subperm s.items := by
  obtain ⟨hs, ht⟩ := items_setProcess hp h
  exact ht.subperm.trans (((List.subperm_append_right _).mpr hi).trans hs.symm.subperm)

/-- The process has taken tasks from the stream. -/
theorem items_taken (hp : s.processes[n]? = some p) (h : WorkerEffect s p e u p')
    {tasks : List InvocationTask} (hi : p'.items.Perm (tasks.map (·, .ready) ++ p.items)) :
    (u.setProcess n p').items.Perm (tasks.map (·, .ready) ++ s.items) := by
  obtain ⟨hs, ht⟩ := items_setProcess hp h
  refine ht.trans ((hi.append_right _).trans ?_)
  rw [List.append_assoc]
  exact hs.symm.append_left _

/-- One coroutine of the process has moved on or returned. -/
theorem items_moved (hp : s.processes[n]? = some p) (h : WorkerEffect s p e u p') {j : Nat}
    {c : Coroutine} (hc : p.coroutines[j]? = some c) {l : List (InvocationTask × Stage)}
    (hi : p'.items.Perm (l ++ p.others j)) :
    ∃ rest, s.items.Perm ((c.task, c.stage) :: rest) ∧
      (u.setProcess n p').items.Perm (l ++ rest) := by
  obtain ⟨hs, ht⟩ := items_setProcess hp h
  refine ⟨p.others j ++ s.elsewhere n, ?_, ?_⟩
  · exact hs.trans ((Process.items_perm hc).append_right _)
  · refine ht.trans ((hi.append_right _).trans ?_)
    rw [List.append_assoc]

end Items

/-- The effects of a step. -/
inductive Effect (s : State) : Event → State → Prop where
  | ticked (now : Time) (h : s.clock ≤ now) : Effect s (.tick now) { s with clock := now }
  | created (request : CreateRequest) (version : FunctionVersion) (invocationId dispatchId : UUID)
      (queuedAt : Time) (db : Database) (hq : queuedAt ≤ s.clock)
      (h : insertInvocation s.db request version invocationId dispatchId queuedAt = .ok db) :
      Effect s (.createInvocation request version invocationId dispatchId queuedAt)
        { s with db := db }
  | selected (limit : Nat) : Effect s (.select limit) { s with
      batches := s.batches ++ [⟨s.db.dueDispatches s.clock limit s.lockedDispatches, []⟩] }
  | published (b : Nat) (d : InvocationDispatch) (todo done : List InvocationDispatch)
      (outcome : PublishOutcome) (hb : s.batches[b]? = some ⟨d :: todo, done⟩) :
      Effect s (.publish b outcome) (publishTurn s b d todo done outcome)
  | committed (b : Nat) (done : List InvocationDispatch) (hb : s.batches[b]? = some ⟨[], done⟩) :
      Effect s (.commit b)
        { s with db := commitDispatches s.db done, batches := s.batches.eraseIdx b }
  | rolledBack (b : Nat) (batch : Batch) (hb : s.batches[b]? = some batch) :
      Effect s (.rollback b) { s with
        batches := s.batches.eraseIdx b
        rolledBack := s.rolledBack ++ batch.published }
  | registered (workerId : UUID) (hostname consumerName : String) (persisted : Bool)
      (config : WorkerConfig) (workers : Table Worker.id Worker.noIndex)
      (hn : consumerName ∉ s.processes.map (·.consumerName))
      (h : s.db.workers.insert (newWorker workerId hostname config.maxConcurrency
        (if persisted then some consumerName else none) s.clock) = .ok workers) :
      Effect s (.register workerId hostname consumerName persisted config) { s with
        db := { s.db with workers := workers }
        processes := s.processes ++ [⟨workerId, consumerName, config, {}, .start, []⟩] }
  | worked (n : Nat) (p : Process) (e : WorkerEvent) (u : State) (p' : Process)
      (hp : s.processes[n]? = some p) (h : WorkerEffect s p e u p') :
      Effect s (.worker n e) (u.setProcess n p')

/-- **Every step has one of the listed effects.** -/
theorem step_effect {s t : State} {e : Event} (h : step s e = some t) : Effect s e t := by
  cases e with
  | tick now =>
    simp only [step, Option.ite_none_right_eq_some] at h
    obtain ⟨hle, h⟩ := h
    cases h
    exact .ticked now hle
  | createInvocation request version invocationId dispatchId queuedAt =>
    simp only [step, Option.ite_none_right_eq_some] at h
    obtain ⟨hq, h⟩ := h
    split at h
    · rename_i db hdb
      cases h
      exact .created request version invocationId dispatchId queuedAt db hq hdb
    · cases h
  | select limit =>
    cases h
    exact .selected limit
  | publish b outcome =>
    simp only [step] at h
    split at h
    · rename_i d todo done hb
      cases h
      exact .published b d todo done outcome hb
    · cases h
  | commit b =>
    simp only [step] at h
    split at h
    · rename_i done hb
      cases h
      exact .committed b done hb
    · cases h
  | rollback b =>
    obtain ⟨batch, hb, rfl⟩ := Option.map_eq_some_iff.mp h
    exact .rolledBack b batch hb
  | register workerId hostname consumerName persisted config =>
    simp only [step, Option.ite_none_left_eq_some] at h
    obtain ⟨hn, h⟩ := h
    split at h
    · rename_i db hdb
      cases h
      obtain ⟨workers, hw, rfl⟩ := registerWorker_ok hdb
      exact .registered workerId hostname consumerName persisted config workers hn hw
    · cases h
  | worker n event =>
    obtain ⟨p, hp, h⟩ := Option.bind_eq_some_iff.mp h
    obtain ⟨⟨u, p'⟩, hu, rfl⟩ := Option.map_eq_some_iff.mp h
    exact .worked n p event u p' hp (workerStep_effect hu)

/-! ## One process -/

section Processes

variable {s t u : State} {n : Nat} {p p' : Process} {e : WorkerEvent}

theorem step_worker (hp : s.processes[n]? = some p) (h : workerStep s p e = some (u, p')) :
    step s (.worker n e) = some (u.setProcess n p') := by
  simp only [step, hp, Option.bind_some, h, Option.map_some]

theorem worker_step (hp : s.processes[n]? = some p) (hs : step s (.worker n e) = some t) :
    ∃ u p', workerStep s p e = some (u, p') ∧ t.group = u.group ∧ t.processes[n]? = some p' := by
  obtain ⟨q, hq, h⟩ := Option.bind_eq_some_iff.mp hs
  obtain rfl := Option.some.inj (hp.symm.trans hq)
  obtain ⟨⟨u, p'⟩, hu, rfl⟩ := Option.map_eq_some_iff.mp h
  refine ⟨u, p', hu, rfl, ?_⟩
  have hproc : u.processes = s.processes := (workerStep_effect hu).ident.2
  obtain ⟨hlt, -⟩ := List.getElem?_eq_some_iff.mp hp
  show (u.processes.set n p')[n]? = some p'
  rw [hproc, List.getElem?_set_self hlt]

theorem other_process {m : Nat} (hs : step s (.worker m e) = some t) (hmn : m ≠ n) :
    t.processes[n]? = s.processes[n]? := by
  obtain ⟨q, hq, h⟩ := Option.bind_eq_some_iff.mp hs
  obtain ⟨⟨u, q'⟩, hu, rfl⟩ := Option.map_eq_some_iff.mp h
  show (u.processes.set m q')[n]? = s.processes[n]?
  rw [List.getElem?_set_ne hmn, (workerStep_effect hu).ident.2]

/-- A process moves with its own steps only. -/
theorem process_step {e : Event} (hp : s.processes[n]? = some p) (hs : step s e = some t) :
    t.processes[n]? = some p ∨ ∃ e' u p', e = .worker n e' ∧ workerStep s p e' = some (u, p') ∧
      t.processes[n]? = some p' := by
  cases e with
  | worker m e =>
    by_cases hm : m = n
    · subst hm
      obtain ⟨u, p', hu, -, hp'⟩ := worker_step hp hs
      exact .inr ⟨e, u, p', rfl, hu, hp'⟩
    · exact .inl ((other_process hs hm).trans hp)
  | tick | createInvocation | select | publish | commit | rollback =>
    have hproc : t.processes = s.processes := by
      cases step_effect hs
      rfl
    exact .inl (by rw [hproc, hp])
  | register workerId hostname consumerName persisted config =>
    cases step_effect hs with
    | registered _ _ _ _ _ workers hn hw =>
      obtain ⟨hlt, -⟩ := List.getElem?_eq_some_iff.mp hp
      exact .inl ((List.getElem?_append_left hlt).trans hp)

end Processes

end Serverless.Cluster
