import Mathlib.Data.List.Perm.Subperm
import Serverless.Model.Heartbeat
import Serverless.Model.Recovery

/-!
# A worker process between two of its commands

The program counter of `run_worker` (`worker/app/main.py`). The main task runs
`process_worker_once` over and over; `Loop` says which command it sends next. Tasks
are processed by coroutines, at most `max_concurrency` of them awaited at a time. When
one of them raises, `asyncio.gather` lets the others run on: the iteration ends and
they are no longer awaited.
-/
namespace Serverless.Cluster

open Serverless.Library Serverless.Model

structure WorkerConfig where
  staleWorkerSeconds : Nat
  maxAttempts : Nat
  maxConcurrency : Nat
  pendingMessageClaimCount : Nat

def WorkerConfig.claimCount (c : WorkerConfig) : Nat :=
  min c.pendingMessageClaimCount c.maxConcurrency

/-- How far `process_tasks` has come with its task. -/
inductive Stage where
  | ready
  | refreshing (attempt : InvocationAttempt)
  | executing (attempt : InvocationAttempt)
  | finishing (attempt : InvocationAttempt) (result : RuntimeExecutionResult)
  | acking

/-- One call of `process_task`. -/
structure Coroutine where
  task : InvocationTask
  stage : Stage := .ready
  awaited : Bool := true

/-- Where `process_worker_once` goes on when `process_task_batches` returns. -/
inductive Next where
  | claim (scan : RecoverySummary) (recovered : Nat) (full : Bool)
  | autoclaim (scan : RecoverySummary) (recovered : Nat) (startId nextStartId : StreamId)
      (claimed : Bool)
  | finish

/-- Where `process_worker_once` stands. `claiming` and `listed` are inside
`claim_tasks_from_consumers`, before an `XPENDING` and before an `XCLAIM`. -/
inductive Loop where
  | start
  | claiming (scan : RecoverySummary) (recovered : Nat) (names : List String)
      (tasks : List InvocationTask)
  | listed (scan : RecoverySummary) (recovered : Nat) (names : List String)
      (tasks : List InvocationTask) (consumer : String) (ids : List StreamId)
  | autoclaiming (scan : RecoverySummary) (recovered : Nat) (startId : StreamId)
  | offlining (scan : RecoverySummary) (recovered : Nat)
  | reading
  | processing (rest : List InvocationTask) (next : Next)
  | stopping
  | exited

namespace Loop

/-- `return recovered_total`, or on to the new entries. -/
def afterRecovery (recovered : Nat) : Loop := if 0 < recovered then .start else .reading

def afterAutoclaim (scan : RecoverySummary) (recovered : Nat) : Loop :=
  if scan.staleWorkerIds ≠ [] then .offlining scan recovered else afterRecovery recovered

def afterClaims (scan : RecoverySummary) (recovered : Nat) : Loop :=
  if scan.staleConsumerNames.length < scan.staleWorkerIds.length then .autoclaiming scan recovered 0
  else afterAutoclaim scan recovered

def claimRound (scan : RecoverySummary) (recovered : Nat) : Loop :=
  .claiming scan recovered scan.staleConsumerNames []

def afterScan (scan : RecoverySummary) : Loop :=
  if scan.staleConsumerNames ≠ [] then claimRound scan 0 else afterClaims scan 0

/-- Tasks that have been taken from the stream and not been handed to a coroutine. -/
def tasks : Loop → List InvocationTask
  | .claiming _ _ _ tasks | .listed _ _ _ tasks _ _ => tasks
  | .processing rest _ => rest
  | .start | .autoclaiming .. | .offlining .. | .reading | .stopping | .exited => []

/-- The stale scan that the recovery in progress works on. -/
def scan : Loop → Option RecoverySummary
  | .claiming scan .. | .listed scan .. | .autoclaiming scan .. | .offlining scan _
  | .processing _ (.claim scan ..) | .processing _ (.autoclaim scan ..) => some scan
  | .start | .reading | .processing _ .finish | .stopping | .exited => none

end Loop

def Next.resume : Next → Loop
  | .claim scan recovered full =>
    if full then .claimRound scan recovered else .afterClaims scan recovered
  | .autoclaim scan recovered startId nextStartId claimed =>
    if nextStartId = 0 then .afterAutoclaim scan recovered
    else if nextStartId = startId ∧ ¬ claimed then .afterAutoclaim scan recovered
    else .autoclaiming scan recovered nextStartId
  | .finish => .start

structure Process where
  workerId : UUID
  consumerName : String
  config : WorkerConfig
  runtime : WorkerRuntimeState
  loop : Loop
  coroutines : List Coroutine

namespace Process

/-- Every task the process has a copy of, with how far it has come. A task that no coroutine
works on yet is ready. -/
def items (p : Process) : List (InvocationTask × Stage) :=
  p.loop.tasks.map (·, .ready) ++ p.coroutines.map fun c => (c.task, c.stage)

/-- The tasks at hand besides coroutine `j`. -/
def others (p : Process) (j : Nat) : List (InvocationTask × Stage) :=
  p.loop.tasks.map (·, .ready) ++ (p.coroutines.eraseIdx j).map fun c => (c.task, c.stage)

def goTo (p : Process) (loop : Loop) : Process := { p with loop := loop }

def setStage (p : Process) (j : Nat) (c : Coroutine) (stage : Stage) : Process :=
  { p with coroutines := p.coroutines.set j { c with stage := stage } }

/-- The coroutine returns. -/
def finished (p : Process) (j : Nat) : Process :=
  { p with coroutines := p.coroutines.eraseIdx j }

/-- An exception leaves the coroutine. If it was awaited, the iteration fails with it and the
other coroutines of its batch run on. -/
def failed (p : Process) (j : Nat) (c : Coroutine) : Process :=
  if c.awaited then
    { p with
      loop := .start
      coroutines := (p.coroutines.eraseIdx j).map fun c => { c with awaited := false } }
  else p.finished j

/-- The part of `process_worker_once` that sends no command. -/
def proceed (p : Process) : Option Process :=
  match p.loop with
  | .claiming scan recovered names tasks =>
    if names = [] ∨ p.config.claimCount ≤ tasks.length then
      if tasks = [] then some (p.goTo (.afterClaims scan recovered))
      else some (p.goTo (.processing tasks (.claim scan (recovered + tasks.length)
        (decide (p.config.claimCount ≤ tasks.length)))))
    else none
  | .processing rest next =>
    if p.coroutines.any (·.awaited) then none
    -- `range` does not take a step of 0
    else if p.config.maxConcurrency = 0 then some (p.goTo .start)
    else if rest = [] then some (p.goTo next.resume)
    else some { p with
      loop := .processing (rest.drop p.config.maxConcurrency) next
      coroutines := p.coroutines ++ (rest.take p.config.maxConcurrency).map fun t => { task := t } }
  | _ => none

/-- A command of `process_worker_once` itself raises: the iteration ends. -/
def failIteration (p : Process) : Option Process :=
  match p.loop with
  | .start | .claiming .. | .listed .. | .autoclaiming .. | .offlining .. | .reading =>
    some (p.goTo .start)
  | .processing .. | .stopping | .exited => none

def isExecuting (c : Coroutine) : Bool :=
  match c.stage with
  | .executing _ => true
  | _ => false

/-- The interrupt cancels the main task and with it the coroutines it awaits; each runs its
`finally` block. -/
def interrupt (p : Process) : Option Process :=
  match p.loop with
  | .stopping | .exited => none
  | _ =>
    let cancelled := p.coroutines.countP fun c => c.awaited && isExecuting c
    some { p with
      loop := .stopping
      coroutines := p.coroutines.filter fun c => !c.awaited
      runtime := WorkerRuntimeState.markTaskFinished^[cancelled] p.runtime }

/-- The process ends, wherever it stands. -/
def stop (p : Process) : Process := { p with loop := .exited, coroutines := [] }

/-! ### The tasks at hand after a step -/

variable {p : Process} {j : Nat} {c : Coroutine}

theorem items_perm (hc : p.coroutines[j]? = some c) :
    p.items.Perm ((c.task, c.stage) :: p.others j) := by
  obtain ⟨hlt, rfl⟩ := List.getElem?_eq_some_iff.mp hc
  refine List.Perm.trans ?_ List.perm_middle
  exact ((List.getElem_cons_eraseIdx_perm hlt).symm.map _).append_left _

theorem others_subperm (hc : p.coroutines[j]? = some c) : (p.others j).Subperm p.items :=
  (List.sublist_cons_self _ _).subperm.trans (items_perm hc).symm.subperm

theorem items_setStage (hc : p.coroutines[j]? = some c) (stage : Stage) :
    (p.setStage j c stage).items.Perm ((c.task, stage) :: p.others j) := by
  obtain ⟨hlt, -⟩ := List.getElem?_eq_some_iff.mp hc
  refine List.Perm.trans ?_ List.perm_middle
  exact ((List.set_perm_cons_eraseIdx hlt _).map _).append_left _

theorem items_failed : (p.failed j c).items.Subperm (p.others j) := by
  unfold failed
  split
  · apply List.Sublist.subperm
    simp only [items, others, Loop.tasks, List.map_nil, List.nil_append, List.map_map,
      Function.comp_def]
    exact List.sublist_append_right _ _
  · exact List.Subperm.refl _

theorem items_goTo {loop : Loop} {tasks : List InvocationTask}
    (h : loop.tasks = p.loop.tasks ++ tasks) :
    (p.goTo loop).items.Perm (tasks.map (·, Stage.ready) ++ p.items) := by
  simp only [items, goTo, h, List.map_append]
  rw [← List.append_assoc]
  exact List.perm_append_comm.append_right _

/-- Leaving the tasks of the loop behind. -/
theorem items_dropLoop {loop : Loop} (h : loop.tasks = []) : (p.goTo loop).items.Subperm p.items := by
  apply List.Sublist.subperm
  simp only [items, goTo, h, List.map_nil, List.nil_append]
  exact List.sublist_append_right _ _

theorem afterRecovery_tasks (recovered : Nat) : (Loop.afterRecovery recovered).tasks = [] := by
  unfold Loop.afterRecovery
  split <;> rfl

theorem afterAutoclaim_tasks (scan : RecoverySummary) (recovered : Nat) :
    (Loop.afterAutoclaim scan recovered).tasks = [] := by
  unfold Loop.afterAutoclaim
  split
  · rfl
  · exact afterRecovery_tasks recovered

theorem afterClaims_tasks (scan : RecoverySummary) (recovered : Nat) :
    (Loop.afterClaims scan recovered).tasks = [] := by
  unfold Loop.afterClaims
  split
  · rfl
  · exact afterAutoclaim_tasks scan recovered

theorem afterScan_tasks (scan : RecoverySummary) : (Loop.afterScan scan).tasks = [] := by
  unfold Loop.afterScan
  split
  · rfl
  · exact afterClaims_tasks scan 0

theorem resume_tasks (next : Next) : next.resume.tasks = [] := by
  cases next with
  | claim scan recovered full =>
    simp only [Next.resume]
    split
    · rfl
    · exact afterClaims_tasks scan recovered
  | autoclaim scan recovered startId nextStartId claimed =>
    simp only [Next.resume]
    split
    · exact afterAutoclaim_tasks scan recovered
    · split
      · exact afterAutoclaim_tasks scan recovered
      · rfl
  | finish => rfl

theorem items_proceed {p' : Process} (h : p.proceed = some p') : p'.items.Subperm p.items := by
  unfold proceed at h
  split at h
  · rename_i scan recovered names tasks hl
    split at h
    · split at h
      · cases h
        exact items_dropLoop (afterClaims_tasks scan recovered)
      · cases h
        apply List.Perm.subperm
        simp only [items, goTo, hl, Loop.tasks]
        exact List.Perm.refl _
    · cases h
  · rename_i rest next hl
    split at h
    · cases h
    split at h
    · cases h
      exact items_dropLoop rfl
    split at h
    · cases h
      exact items_dropLoop (resume_tasks next)
    · cases h
      -- the first tasks of the rest move on to coroutines
      apply List.Perm.subperm
      have hsplit : rest.map (·, Stage.ready) =
          (rest.take p.config.maxConcurrency).map (·, Stage.ready) ++
            (rest.drop p.config.maxConcurrency).map (·, Stage.ready) := by
        rw [← List.map_append, List.take_append_drop]
      simp only [items, hl, Loop.tasks, List.map_append, List.map_map, Function.comp_def]
      rw [hsplit, List.append_assoc, ← List.append_assoc]
      exact List.perm_append_comm
  · cases h

theorem items_failIteration {p' : Process} (h : p.failIteration = some p') :
    p'.items.Subperm p.items := by
  unfold failIteration at h
  split at h <;> cases h <;> exact items_dropLoop rfl

theorem items_interrupt {p' : Process} (h : p.interrupt = some p') : p'.items.Subperm p.items := by
  unfold interrupt at h
  split at h
  · cases h
  · cases h
  · cases h
    apply List.Sublist.subperm
    simp only [items, Loop.tasks, List.map_nil, List.nil_append]
    exact (List.filter_sublist.map _).trans (List.sublist_append_right _ _)

end Process

end Serverless.Cluster
