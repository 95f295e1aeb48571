import Serverless.Cluster.Concurrency
import Serverless.Cluster.Offline

/-!
# Draining dead workers

`process_worker_once` asks the consumers of the stale workers page by page, hands each page to
`process_task`, and stops after a page that was not full. While nobody else touches what these
consumers hold, every entry is handed over once, and nothing is left when the workers are
marked offline. The loop has a potential that each of its steps, and each step of a task it
waits for, brings down.
-/
namespace Serverless.Cluster

open Serverless.Library Serverless.Model

/-- The main task is inside the consumer-scoped recovery loop. -/
def Loop.draining : Loop → Bool
  | .claiming .. | .listed .. | .processing _ (.claim ..) => true
  | .start | .autoclaiming .. | .offlining .. | .reading | .processing _ (.autoclaim ..)
  | .processing _ .finish | .stopping | .exited => false

/-- The coroutine an event belongs to. -/
def WorkerEvent.coroutine : WorkerEvent → Option Nat
  | .markRunning j _ | .refresh j | .execute j _ | .markFinished j _ _ | .xack j | .failTask j =>
    some j
  | .heartbeat | .recoverStaleWorkers | .proceed | .xpending | .xclaim | .xautoclaim
  | .markWorkersOffline | .xreadgroup | .failIteration | .interrupt | .markOffline | .stop => none

/-- The moves and commands of the recovery loop. -/
def WorkerEvent.ofLoop : WorkerEvent → Bool
  | .proceed | .xpending | .xclaim => true
  | .heartbeat | .recoverStaleWorkers | .xautoclaim | .markWorkersOffline | .xreadgroup
  | .markRunning .. | .refresh _ | .execute .. | .markFinished .. | .xack _ | .failTask _
  | .failIteration | .interrupt | .markOffline | .stop => false

namespace Process

/-- The event belongs to a coroutine that the main task awaits, or does not await. -/
def HasTask (p : Process) (e : WorkerEvent) (awaited : Bool) : Prop :=
  ∃ j ∈ e.coroutine, ∃ c ∈ p.coroutines[j]?, c.awaited = awaited

instance (p : Process) (e : WorkerEvent) (awaited : Bool) : Decidable (p.HasTask e awaited) :=
  inferInstanceAs (Decidable (∃ j ∈ e.coroutine, ∃ c ∈ p.coroutines[j]?, c.awaited = awaited))

/-- A step of the recovery loop, or of a `process_task` that it waits for. -/
def Advances (p : Process) (e : WorkerEvent) : Prop :=
  e.ofLoop = true ∨ p.HasTask e true

instance (p : Process) (e : WorkerEvent) : Decidable (p.Advances e) :=
  inferInstanceAs (Decidable (_ ∨ _))

/-- The batch that a step of the main task hands to `process_task`, if any. -/
def handed (p : Process) : WorkerEvent → List (List InvocationTask)
  | .proceed =>
    match p.loop with
    | .processing (task :: rest) _ => [(task :: rest).take p.config.maxConcurrency]
    | _ => []
  | _ => []

end Process

/-- Steps that are not of the iteration of process `n`: those of the other processes, its own
heartbeat, and coroutines that an earlier iteration has left behind. -/
def Outside (n : Nat) (s : State) : Event → Prop
  | .worker m e => m ≠ n ∨ e = .heartbeat ∨ ∃ p ∈ s.processes[n]?, p.HasTask e false
  | .tick _ | .createInvocation .. | .select _ | .publish .. | .commit _ | .rollback _
  | .register .. => True

/-- Runs from `s₀` during which process `n` works in its recovery loop, no `process_task` raises
and nothing outside touches what the consumers hold: the batches handed to `process_task`, and the
number of steps taken by the loop and by the tasks it waits for. -/
inductive Draining (n : Nat) (names : List String) (s₀ : State) :
    List (List InvocationTask) → Nat → State → Prop where
  | start : Draining n names s₀ [] 0 s₀
  | advance {batches : List (List InvocationTask)} {k : Nat} {s t : State} {p : Process}
      {e : WorkerEvent} (h : Draining n names s₀ batches k s) (hp : s.processes[n]? = some p)
      (hl : p.loop.draining = true) (ha : p.Advances e) (hr : raises s p e = false)
      (hs : step s (.worker n e) = some t) :
      Draining n names s₀ (batches ++ p.handed e) (k + 1) t
  | meanwhile {batches : List (List InvocationTask)} {k : Nat} {s t : State} {e : Event}
      (h : Draining n names s₀ batches k s) (ho : Outside n s e)
      (hkeep : ∀ name ∈ names, t.group.heldBy name = s.group.heldBy name)
      (hs : step s e = some t) : Draining n names s₀ batches k t

/-! ## Where the loop stands -/

/-- What the loop knows of the consumers: those that it has asked in the present round hold
nothing, unless the page is full. -/
def Standing (scan : RecoverySummary) (config : WorkerConfig) (g : Group) (handed : Nat) :
    Loop → Prop
  | .claiming scan' recovered names tasks =>
    scan' = scan ∧ recovered = handed ∧ ∃ asked, scan.staleConsumerNames = asked ++ names ∧
      (tasks.length < config.claimCount → ∀ name ∈ asked, g.heldBy name = [])
  | .listed scan' recovered names tasks consumer ids =>
    scan' = scan ∧ recovered = handed ∧ tasks.length < config.claimCount ∧
      ids = (g.heldBy consumer).take (config.claimCount - tasks.length) ∧
      ∃ asked, scan.staleConsumerNames = asked ++ consumer :: names ∧
        ∀ name ∈ asked, g.heldBy name = []
  | .processing rest (.claim scan' recovered full) =>
    scan' = scan ∧ recovered = handed + rest.length ∧
      (full = false → ∀ name ∈ scan.staleConsumerNames, g.heldBy name = [])
  | loop => loop = .afterClaims scan handed ∧ ∀ name ∈ scan.staleConsumerNames, g.heldBy name = []

/-! ## The potential -/

def Stage.weight : Stage → Nat
  | .ready => 5
  | .refreshing _ => 4
  | .executing _ => 3
  | .finishing _ _ => 2
  | .acking => 1

def Coroutine.weight (c : Coroutine) : Nat := if c.awaited then c.stage.weight else 0

/-- `total` is the number of consumers to ask in a round. -/
def Loop.weight (total : Nat) : Loop → Nat
  | .claiming _ _ names tasks => 2 * names.length + (2 * total + 10) * tasks.length + 1
  | .listed _ _ names tasks _ _ => 2 * names.length + (2 * total + 10) * tasks.length + 2
  | .processing rest (.claim ..) => 6 * rest.length + (2 * total + 2)
  | _ => 0

def Process.taskWeight (p : Process) : Nat := (p.coroutines.map Coroutine.weight).sum

/-- Every entry still held can cost a whole round. -/
def potential (names : List String) (g : Group) (p : Process) : Nat :=
  (2 * names.length + 11) * (g.heldByAny names).length + p.loop.weight names.length + p.taskWeight

/-- What holds in every state of a draining run, about process `n` as it was at its start (`p₀`)
and as it is (`p`). -/
structure Recovering (n : Nat) (scan : RecoverySummary) (s₀ : State) (p₀ : Process)
    (batches : List (List InvocationTask)) (k : Nat) (s : State) (p : Process) : Prop where
  process : s.processes[n]? = some p
  config : p.config = p₀.config
  name : p.consumerName = p₀.consumerName
  entries : ∀ id e, s₀.group.entry id = some e → s.group.entry id = some e
  standing : Standing scan p₀.config s.group batches.flatten.length p.loop
  balance : ((batches.flatten ++ p.loop.tasks).map (·.streamMessageId) ++
    s.group.heldByAny scan.staleConsumerNames).Perm (s₀.group.heldByAny scan.staleConsumerNames)
  parsed : ∀ task ∈ batches.flatten ++ p.loop.tasks,
    taskOf s₀.group true task.streamMessageId = some task
  awaited : ∀ c ∈ p.coroutines, c.awaited = true → c.task ∈ batches.flatten
  sizes : ∀ batch ∈ batches, batch.length ≤ p₀.config.maxConcurrency
  steps : k + potential scan.staleConsumerNames s.group p ≤
    potential scan.staleConsumerNames s₀.group p₀

/-! ## What a step of a task does -/

/-- A coroutine moves on, acknowledges its message and returns, or raises. -/
inductive TaskStep (s : State) (p : Process) (e : WorkerEvent) (j : Nat) (c : Coroutine) :
    State → Process → Prop where
  | moved (u : State) (stage : Stage) (runtime : WorkerRuntimeState) (hg : u.group = s.group)
      (hw : stage.weight < c.stage.weight) (hr : raises s p e = false) :
      TaskStep s p e j c u { p.setStage j c stage with runtime := runtime }
  | acked (u : State) (hg : u.group = s.group.ack c.task.streamMessageId)
      (hw : 0 < c.stage.weight) (hr : raises s p e = false) : TaskStep s p e j c u (p.finished j)
  | failed (u : State) (hg : u.group = s.group) (hr : raises s p e = true) :
      TaskStep s p e j c u (p.failed j c)

section TaskStep

variable {s u : State} {p p' : Process} {j : Nat} {c : Coroutine}

theorem taskStep_markRunning {attemptId : UUID} (hc : p.coroutines[j]? = some c)
    (h : workerStep s p (.markRunning j attemptId) = some (u, p')) :
    TaskStep s p (.markRunning j attemptId) j c u p' := by
  simp only [workerStep] at h
  split at h
  · rename_i task awaited hc'
    obtain rfl := Option.some.inj (hc.symm.trans hc')
    simp only [Option.some.injEq, startTask] at h
    rcases hm : markRunning s.db task (some p.workerId) attemptId s.clock with ⟨db, error | attempt⟩
    · rw [hm] at h
      cases ha : acknowledges error with
      | true =>
        simp only [ha, if_true, Prod.mk.injEq] at h
        obtain ⟨rfl, rfl⟩ := h
        exact .moved _ .acking p.runtime rfl (by decide : 1 < 5) (by simp [raises, hc, hm, ha])
      | false =>
        simp only [ha, Bool.false_eq_true, if_false, Prod.mk.injEq] at h
        obtain ⟨rfl, rfl⟩ := h
        exact .failed _ rfl (by simp [raises, hc, hm, ha])
    · rw [hm] at h
      simp only [Prod.mk.injEq] at h
      obtain ⟨rfl, rfl⟩ := h
      exact .moved _ (.refreshing attempt) p.runtime rfl (by decide : 4 < 5)
        (by simp [raises, hc, hm])
  · cases h

theorem taskStep_markFinished {jitter : ℚ → ℚ} {dispatchId : UUID} (hc : p.coroutines[j]? = some c)
    (h : workerStep s p (.markFinished j jitter dispatchId) = some (u, p')) :
    TaskStep s p (.markFinished j jitter dispatchId) j c u p' := by
  simp only [workerStep] at h
  split at h
  · rename_i task attempt result awaited hc'
    obtain rfl := Option.some.inj (hc.symm.trans hc')
    simp only [Option.some.injEq, finishTask] at h
    split at h
    · rename_i db row hm
      obtain ⟨rfl, rfl⟩ := Prod.mk.inj h
      exact .moved _ .acking p.runtime rfl (by decide : 1 < 2)
        (by simp only [raises, hc, Option.any_some, hm])
    · rename_i db error hm
      obtain ⟨rfl, rfl⟩ := Prod.mk.inj h
      exact .failed _ rfl (by simp only [raises, hc, Option.any_some, hm])
  · cases h

/-- **Every step of a coroutine has one of the listed effects.** -/
theorem taskStep {e : WorkerEvent} (h : workerStep s p e = some (u, p')) (hj : e.coroutine = some j)
    (hc : p.coroutines[j]? = some c) : TaskStep s p e j c u p' := by
  cases e with
  | markRunning i attemptId =>
    cases hj
    exact taskStep_markRunning hc h
  | markFinished i jitter dispatchId =>
    cases hj
    exact taskStep_markFinished hc h
  | refresh i =>
    cases hj
    simp only [workerStep] at h
    split at h
    · rename_i task attempt awaited hc'
      obtain rfl := Option.some.inj (hc.symm.trans hc')
      cases h
      exact .moved _ _ _ rfl (by decide : 3 < 4) rfl
    · cases h
  | execute i result =>
    cases hj
    simp only [workerStep] at h
    split at h
    · rename_i task attempt awaited hc'
      obtain rfl := Option.some.inj (hc.symm.trans hc')
      split at h
      · cases h
      · cases h
        exact .moved _ _ _ rfl (by decide : 2 < 3) rfl
    · cases h
  | xack i =>
    cases hj
    simp only [workerStep] at h
    split at h
    · rename_i task awaited hc'
      obtain rfl := Option.some.inj (hc.symm.trans hc')
      cases h
      exact .acked _ rfl (by decide : 0 < 1) rfl
    · cases h
  | failTask i =>
    cases hj
    simp only [workerStep] at h
    split at h
    · cases h
    · cases h
    · rename_i c' _ hc'
      obtain rfl := Option.some.inj (hc.symm.trans hc')
      cases h
      exact .failed _ rfl rfl
  | heartbeat | recoverStaleWorkers | proceed | xpending | xclaim | xautoclaim | markWorkersOffline
  | xreadgroup | failIteration | interrupt | markOffline | stop => cases hj

end TaskStep

/-! ## The weight of the tasks -/

section Weight

variable {p : Process} {j : Nat} {c : Coroutine}

theorem taskWeight_split (hc : p.coroutines[j]? = some c) :
    p.taskWeight = c.weight + ((p.coroutines.eraseIdx j).map Coroutine.weight).sum := by
  obtain ⟨hlt, rfl⟩ := List.getElem?_eq_some_iff.mp hc
  have hperm := (List.getElem_cons_eraseIdx_perm hlt).symm.map Coroutine.weight
  exact hperm.sum_eq

theorem taskWeight_finished (hc : p.coroutines[j]? = some c) :
    p.taskWeight = c.weight + (p.finished j).taskWeight := taskWeight_split hc

theorem taskWeight_setStage (hc : p.coroutines[j]? = some c) (stage : Stage)
    (runtime : WorkerRuntimeState) :
    ({ p.setStage j c stage with runtime := runtime } : Process).taskWeight + c.weight =
      p.taskWeight + ({ c with stage := stage } : Coroutine).weight := by
  obtain ⟨hlt, -⟩ := List.getElem?_eq_some_iff.mp hc
  have hperm := (List.set_perm_cons_eraseIdx hlt ({ c with stage := stage } : Coroutine)).map
    Coroutine.weight
  have hset : ({ p.setStage j c stage with runtime := runtime } : Process).taskWeight = _ :=
    hperm.sum_eq
  rw [hset, taskWeight_split hc, List.map_cons, List.sum_cons]
  omega

theorem taskWeight_append (tasks : List InvocationTask) :
    ((p.coroutines ++ tasks.map fun t => ({ task := t } : Coroutine)).map Coroutine.weight).sum =
      p.taskWeight + 5 * tasks.length := by
  have hnew : ((tasks.map fun t => ({ task := t } : Coroutine)).map Coroutine.weight).sum =
      5 * tasks.length := by
    induction tasks with
    | nil => rfl
    | cons t tasks ih =>
      rw [List.map_cons, List.map_cons, List.sum_cons, ih, List.length_cons]
      show 5 + 5 * tasks.length = _
      omega
  rw [List.map_append, List.sum_append, hnew]
  rfl

theorem weight_afterClaims (total : Nat) (scan : RecoverySummary) (recovered : Nat) :
    (Loop.afterClaims scan recovered).weight total = 0 := by
  unfold Loop.afterClaims Loop.afterAutoclaim Loop.afterRecovery
  repeat' split
  all_goals rfl

theorem weight_afterScan (scan : RecoverySummary) :
    (Loop.afterScan scan).weight scan.staleConsumerNames.length ≤
      2 * scan.staleConsumerNames.length + 1 := by
  unfold Loop.afterScan
  split
  · exact Nat.le_refl _
  · rw [weight_afterClaims]
    exact Nat.zero_le _

theorem taskWeight_idle (h : ∀ c ∈ p.coroutines, c.awaited = false) : p.taskWeight = 0 := by
  apply List.sum_eq_zero
  intro w hw
  obtain ⟨c, hc, rfl⟩ := List.mem_map.mp hw
  rw [Coroutine.weight, h c hc]
  rfl

end Weight

/-! ## Outside of the iteration -/

/-- The loop and what it waits for are as they were. -/
structure Aside (p p' : Process) : Prop where
  loop : p'.loop = p.loop
  config : p'.config = p.config
  name : p'.consumerName = p.consumerName
  awaited : ∀ c ∈ p'.coroutines, c.awaited = true → c ∈ p.coroutines
  weight : p'.taskWeight = p.taskWeight

theorem Aside.refl (p : Process) : Aside p p := ⟨rfl, rfl, rfl, fun _ hc _ => hc, rfl⟩

theorem Aside.finished {p : Process} {j : Nat} {c : Coroutine} (hc : p.coroutines[j]? = some c)
    (haw : c.awaited = false) : Aside p (p.finished j) := by
  refine ⟨rfl, rfl, rfl, fun d hd _ => List.mem_of_mem_eraseIdx hd, ?_⟩
  have hweight : c.weight = 0 := by rw [Coroutine.weight, haw]; rfl
  have hsplit := taskWeight_finished hc
  omega

/-- A coroutine that nobody awaits moves on, returns or raises. -/
theorem Aside.task {s u : State} {p p' : Process} {e : WorkerEvent} {j : Nat} {c : Coroutine}
    (hc : p.coroutines[j]? = some c) (haw : c.awaited = false) (h : TaskStep s p e j c u p') :
    Aside p p' := by
  cases h with
  | moved stage runtime hg hw hr =>
    refine ⟨rfl, rfl, rfl, fun d hd hda => ?_, ?_⟩
    · rcases List.mem_or_eq_of_mem_set hd with hd | rfl
      · exact hd
      · rw [haw] at hda
        cases hda
    · have hset := taskWeight_setStage hc stage runtime
      have hold : c.weight = 0 := by rw [Coroutine.weight, haw]; rfl
      have hnew : ({ c with stage := stage } : Coroutine).weight = 0 := by
        rw [Coroutine.weight, haw]
        rfl
      omega
  | acked hg hw hr => exact .finished hc haw
  | failed hg hr =>
    have heq : p.failed j c = p.finished j := by
      rw [Process.failed, haw]
      rfl
    rw [heq]
    exact .finished hc haw

theorem Outside.process {n : Nat} {s t : State} {p : Process} {e : Event} (ho : Outside n s e)
    (hp : s.processes[n]? = some p) (hs : step s e = some t) :
    ∃ p', t.processes[n]? = some p' ∧ Aside p p' := by
  rcases process_step hp hs with hp' | ⟨e', u, p', rfl, hu, hp'⟩
  · exact ⟨p, hp', .refl p⟩
  · refine ⟨p', hp', ?_⟩
    rcases ho with hne | rfl | ⟨q, hq, j, hj, c, hc, haw⟩
    · exact absurd rfl hne
    · simp only [workerStep] at hu
      split at hu
      · cases hu
      · obtain ⟨db, -, he⟩ := Option.map_eq_some_iff.mp hu
        cases he
        exact .refl p
    · obtain rfl := Option.some.inj (hp.symm.trans hq)
      exact .task hc haw (taskStep hu hj hc)

/-! ## One step of the run -/

theorem Standing.left {scan : RecoverySummary} {config : WorkerConfig} {g : Group} {handed : Nat}
    (h : ∀ name ∈ scan.staleConsumerNames, g.heldBy name = []) :
    Standing scan config g handed (.afterClaims scan handed) := by
  have hloop : (Loop.afterClaims scan handed).draining = false := by
    unfold Loop.afterClaims Loop.afterAutoclaim Loop.afterRecovery
    repeat' split
    all_goals rfl
  have hself : Loop.afterClaims scan handed = .afterClaims scan handed := rfl
  revert hloop hself
  generalize hw : Loop.afterClaims scan handed = loop
  intro hloop _
  cases loop with
  | claiming | listed => cases hloop
  | processing rest next =>
    cases next with
    | claim => cases hloop
    | autoclaim | finish => exact ⟨hw.symm, h⟩
  | start | autoclaiming | offlining | reading | stopping | exited => exact ⟨hw.symm, h⟩

theorem Standing.congr {scan : RecoverySummary} {config : WorkerConfig} {g g' : Group} {handed : Nat}
    {loop : Loop} (h : Standing scan config g handed loop)
    (hheld : ∀ name ∈ scan.staleConsumerNames, g'.heldBy name = g.heldBy name) :
    Standing scan config g' handed loop := by
  cases loop with
  | claiming scan' recovered names tasks =>
    obtain ⟨rfl, hrec, asked, hasked, hempty⟩ := h
    refine ⟨rfl, hrec, asked, hasked, fun hlt name hname => ?_⟩
    rw [hheld name (by rw [hasked]; exact List.mem_append_left _ hname)]
    exact hempty hlt name hname
  | listed scan' recovered names tasks consumer ids =>
    obtain ⟨rfl, hrec, hlt, hids, asked, hasked, hempty⟩ := h
    refine ⟨rfl, hrec, hlt, ?_, asked, hasked, fun name hname => ?_⟩
    · rw [hheld consumer (by rw [hasked]; exact List.mem_append_right _ List.mem_cons_self)]
      exact hids
    · rw [hheld name (by rw [hasked]; exact List.mem_append_left _ hname)]
      exact hempty name hname
  | processing rest next =>
    cases next with
    | claim scan' recovered full =>
      obtain ⟨rfl, hrec, hempty⟩ := h
      exact ⟨rfl, hrec, fun hfull name hname => (hheld name hname).trans (hempty hfull name hname)⟩
    | autoclaim | finish =>
      exact ⟨h.1, fun name hname => (hheld name hname).trans (h.2 name hname)⟩
  | start | autoclaiming | offlining | reading | stopping | exited =>
    exact ⟨h.1, fun name hname => (hheld name hname).trans (h.2 name hname)⟩

namespace Recovering

variable {n : Nat} {scan : RecoverySummary} {s₀ s t : State} {p₀ p : Process}
  {batches : List (List InvocationTask)} {k : Nat}

theorem entries_step (h : Recovering n scan s₀ p₀ batches k s p) {e : Event}
    (hs : step s e = some t) (id : StreamId) (x : Entry StreamMessage)
    (hx : s₀.group.entry id = some x) : t.group.entry id = some x := by
  have hx' := h.entries id x hx
  rw [(step_entry hs).1 id (ConsumerGroup.entry_eq_some hx').2.1, hx']

/-- What is in hand is held by none of the consumers any more. -/
theorem notMem_held (h : Recovering n scan s₀ p₀ batches k s p)
    (hn : scan.staleConsumerNames.Nodup) {task : InvocationTask}
    (ht : task ∈ batches.flatten ++ p.loop.tasks) {name : String}
    (hname : name ∈ scan.staleConsumerNames) :
    task.streamMessageId ∉ s.group.heldBy name := by
  have hnd := h.balance.nodup_iff.mpr (ConsumerGroup.heldByAny_nodup hn)
  obtain ⟨-, -, hdis⟩ := List.nodup_append'.mp hnd
  intro hheld
  exact hdis (List.mem_map_of_mem ht) (List.mem_flatMap.mpr ⟨name, hname, hheld⟩)

/-- A step that moves the loop on and nothing else. -/
theorem goTo (h : Recovering n scan s₀ p₀ batches k s p) {loop : Loop}
    (hstand : Standing scan p₀.config s.group batches.flatten.length loop)
    (htasks : loop.tasks = p.loop.tasks)
    (hw : loop.weight scan.staleConsumerNames.length < p.loop.weight scan.staleConsumerNames.length)
    {e : Event} (hs : step s e = some t) (hg : t.group = s.group)
    (hp : t.processes[n]? = some (p.goTo loop)) :
    Recovering n scan s₀ p₀ batches (k + 1) t (p.goTo loop) where
  process := hp
  config := h.config
  name := h.name
  entries := h.entries_step hs
  standing := by
    rw [hg]
    exact hstand
  balance := by
    rw [hg]
    show ((batches.flatten ++ loop.tasks).map _ ++ _).Perm _
    rw [htasks]
    exact h.balance
  parsed := by
    show ∀ task ∈ batches.flatten ++ loop.tasks, _
    rw [htasks]
    exact h.parsed
  awaited := h.awaited
  sizes := h.sizes
  steps := by
    have hsteps := h.steps
    unfold potential at hsteps ⊢
    rw [hg]
    show _ + (_ + loop.weight _ + p.taskWeight) ≤ _
    omega

/-- The round is over: the page goes to `process_task`, or there is none. -/
theorem closePage (h : Recovering n scan s₀ p₀ batches k s p) (hcount : 0 < p₀.config.claimCount)
    {scan' : RecoverySummary} {recovered : Nat} {names : List String} {tasks : List InvocationTask}
    (hl : p.loop = .claiming scan' recovered names tasks)
    (hs : step s (.worker n .proceed) = some t) :
    ∃ p', Recovering n scan s₀ p₀ batches (k + 1) t p' := by
  obtain ⟨u, p', hu, hg, hp'⟩ := worker_step h.process hs
  obtain ⟨p'', hpro, he⟩ := Option.map_eq_some_iff.mp hu
  cases he
  have hstand := h.standing
  rw [hl] at hstand
  obtain ⟨rfl, hrec, asked, hasked, hheld⟩ := hstand
  simp only [Process.proceed, hl, h.config] at hpro
  split at hpro
  · rename_i hover
    -- a page that is not full has come from all consumers
    have hall : tasks.length < p₀.config.claimCount →
        ∀ name ∈ scan'.staleConsumerNames, s.group.heldBy name = [] := by
      intro hlt
      have hnames : names = [] := hover.resolve_right (by omega)
      rw [hasked, hnames, List.append_nil]
      exact hheld hlt
    split at hpro
    · rename_i hnil
      subst hnil
      cases hpro
      subst hrec
      refine ⟨_, h.goTo (.left (hall hcount)) ?_ ?_ hs hg hp'⟩
      · rw [hl, Process.afterClaims_tasks]
        rfl
      · rw [hl, weight_afterClaims]
        exact Nat.succ_pos _
    · rename_i hne
      cases hpro
      refine ⟨_, h.goTo ?_ (by rw [hl]; rfl) ?_ hs hg hp'⟩
      · refine ⟨rfl, by rw [hrec], fun hfull => hall ?_⟩
        have hle := of_decide_eq_false hfull
        omega
      · have hpos : 0 < tasks.length := List.length_pos_iff.mpr hne
        rw [hl]
        simp only [Loop.weight, Nat.add_mul]
        have : 2 * scan'.staleConsumerNames.length ≤
            2 * scan'.staleConsumerNames.length * tasks.length := Nat.le_mul_of_pos_right _ hpos
        omega
  · cases hpro

/-- A batch of the page is handed over, or the loop goes on to the next page or leaves. -/
theorem nextBatch (h : Recovering n scan s₀ p₀ batches k s p) (hconc : 0 < p₀.config.maxConcurrency)
    {scan' : RecoverySummary} {recovered : Nat} {full : Bool} {rest : List InvocationTask}
    (hl : p.loop = .processing rest (.claim scan' recovered full))
    (hs : step s (.worker n .proceed) = some t) :
    ∃ p', Recovering n scan s₀ p₀ (batches ++ p.handed .proceed) (k + 1) t p' := by
  obtain ⟨u, p', hu, hg, hp'⟩ := worker_step h.process hs
  obtain ⟨p'', hpro, he⟩ := Option.map_eq_some_iff.mp hu
  cases he
  have hstand := h.standing
  rw [hl] at hstand
  obtain ⟨rfl, hrec, hheld⟩ := hstand
  simp only [Process.proceed, hl, h.config] at hpro
  split at hpro
  · cases hpro
  split at hpro
  · omega
  cases rest with
  | nil =>
    cases hpro
    have hnone : p.handed .proceed = [] := by simp only [Process.handed, hl]
    rw [hnone, List.append_nil]
    obtain rfl : recovered = batches.flatten.length := hrec
    cases full with
    | true =>
      refine ⟨_, h.goTo ?_ (by rw [hl]; rfl) ?_ hs hg hp'⟩
      · exact ⟨rfl, rfl, [], rfl, fun _ name hname => absurd hname List.not_mem_nil⟩
      · rw [hl]
        simp only [Next.resume, Loop.claimRound, Loop.weight, List.length_nil, if_true]
        omega
    | false =>
      refine ⟨_, h.goTo (.left (hheld rfl)) ?_ ?_ hs hg hp'⟩
      · rw [hl]
        exact Process.afterClaims_tasks _ _
      · rw [hl]
        show (Loop.afterClaims _ _).weight _ < _
        rw [weight_afterClaims]
        simp only [Loop.weight]
        omega
  | cons task rest =>
    cases hpro
    have hhanded : p.handed .proceed = [(task :: rest).take p₀.config.maxConcurrency] := by
      simp only [Process.handed, hl, h.config]
    have hflat : (batches ++ p.handed .proceed).flatten ++
        (task :: rest).drop p₀.config.maxConcurrency = batches.flatten ++ p.loop.tasks := by
      rw [hhanded, hl, List.flatten_append, List.append_assoc]
      simp only [List.flatten_cons, List.flatten_nil, List.append_nil, List.take_append_drop,
        Loop.tasks]
    have hlen : (task :: rest).length = ((task :: rest).take p₀.config.maxConcurrency).length +
        ((task :: rest).drop p₀.config.maxConcurrency).length := by
      rw [← List.length_append, List.take_append_drop]
    refine ⟨_, hp', rfl, h.name, h.entries_step hs, ?_, ?_, ?_, ?_, ?_, ?_⟩
    · refine ⟨rfl, ?_, by rw [hg]; exact hheld⟩
      rw [hhanded, List.flatten_append, List.length_append]
      simp only [List.flatten_cons, List.flatten_nil, List.append_nil]
      omega
    · rw [hg]
      show (((batches ++ p.handed .proceed).flatten ++ (task :: rest).drop _).map _ ++ _).Perm _
      rw [hflat]
      exact h.balance
    · show ∀ x ∈ (batches ++ p.handed .proceed).flatten ++ (task :: rest).drop _, _
      rw [hflat]
      exact h.parsed
    · intro c hc haw
      rw [List.flatten_append, hhanded]
      rcases List.mem_append.mp hc with hc | hc
      · exact List.mem_append_left _ (h.awaited c hc haw)
      · obtain ⟨x, hx, rfl⟩ := List.mem_map.mp hc
        exact List.mem_append_right _ (by simpa using hx)
    · intro batch hb
      rw [hhanded] at hb
      rcases List.mem_append.mp hb with hb | hb
      · exact h.sizes batch hb
      · rw [List.mem_singleton.mp hb]
        exact List.length_take_le _ _
    · -- each task that is handed over pays for this step
      have hsteps := h.steps
      have hpos : 0 < ((task :: rest).take p₀.config.maxConcurrency).length := by
        rw [List.length_take, List.length_cons]
        omega
      unfold potential at hsteps ⊢
      rw [hl] at hsteps
      rw [hg]
      simp only [Loop.weight, Process.taskWeight, taskWeight_append] at hsteps ⊢
      omega

theorem proceed (h : Recovering n scan s₀ p₀ batches k s p) (hcount : 0 < p₀.config.claimCount)
    (hconc : 0 < p₀.config.maxConcurrency) (hl : p.loop.draining = true)
    (hs : step s (.worker n .proceed) = some t) :
    ∃ p', Recovering n scan s₀ p₀ (batches ++ p.handed .proceed) (k + 1) t p' := by
  cases hloop : p.loop with
  | claiming scan' recovered names tasks =>
    have hnone : p.handed .proceed = [] := by simp only [Process.handed, hloop]
    rw [hnone, List.append_nil]
    exact h.closePage hcount hloop hs
  | listed =>
    obtain ⟨u, p', hu, -⟩ := worker_step h.process hs
    simp [workerStep, Process.proceed, hloop] at hu
  | processing rest next =>
    rw [hloop] at hl
    cases next with
    | claim scan' recovered full => exact h.nextBatch hconc hloop hs
    | autoclaim | finish => cases hl
  | start | autoclaiming | offlining | reading | stopping | exited =>
    rw [hloop] at hl
    cases hl

/-- `XPENDING` lists the next consumer, or finds it empty. -/
theorem list (h : Recovering n scan s₀ p₀ batches k s p)
    (hs : step s (.worker n .xpending) = some t) : ∃ p', Recovering n scan s₀ p₀ batches (k + 1) t p' := by
  obtain ⟨u, p', hu, hg, hp'⟩ := worker_step h.process hs
  simp only [workerStep] at hu
  split at hu
  · rename_i scan' recovered name names tasks hl
    have hstand := h.standing
    rw [hl] at hstand
    obtain ⟨rfl, hrec, asked, hasked, hheld⟩ := hstand
    rw [h.config] at hu
    split at hu
    · cases hu
    rename_i hcount
    have hlt : tasks.length < p₀.config.claimCount := by omega
    rw [ConsumerGroup.pendingOf_zero] at hu
    split at hu
    · rename_i hnone
      cases hu
      -- the consumer holds nothing
      have hempty : s.group.heldBy name = [] := by
        rcases List.take_eq_nil_iff.mp hnone with h₀ | h₀
        · omega
        · exact h₀
      refine ⟨_, h.goTo ?_ (by rw [hl]; rfl) ?_ hs hg hp'⟩
      · refine ⟨rfl, hrec, asked ++ [name], by rw [hasked, List.append_assoc]; rfl, ?_⟩
        intro _ c hc
        rcases List.mem_append.mp hc with hc | hc
        · exact hheld hlt c hc
        · rw [List.mem_singleton.mp hc]
          exact hempty
      · rw [hl]
        simp only [Loop.weight, List.length_cons]
        omega
    · rename_i id ids hids
      cases hu
      refine ⟨_, h.goTo ?_ (by rw [hl]; rfl) ?_ hs hg hp'⟩
      · exact ⟨rfl, hrec, hlt, hids.symm, asked, hasked, hheld hlt⟩
      · rw [hl]
        simp only [Loop.weight, List.length_cons]
        omega
  · cases hu

theorem taskOf_map_id {g : Group} {ids : List StreamId} (h : ∀ id ∈ ids, id ∈ g.pending.map (·.id)) :
    (ids.filterMap (taskOf g true)).map (·.streamMessageId) = ids := by
  induction ids with
  | nil => rfl
  | cons id ids ih =>
    obtain ⟨q, hq, rfl⟩ := List.mem_map.mp (h id List.mem_cons_self)
    obtain ⟨h₁, h₂⟩ := g.pending_le q hq
    obtain ⟨x, hx⟩ := ConsumerGroup.exists_entry h₁ (h₂.trans g.delivered_le)
    have htask : taskOf g true q.id = some (parseInvocationTask q.id x.fields true) := by
      rw [taskOf, hx]
      rfl
    rw [List.filterMap_cons_some htask, List.map_cons,
      ih fun id hid => h id (List.mem_cons_of_mem _ hid)]
    rfl

/-- An entry that the consumers hold was held at the start, and has not changed. -/
theorem taskOf_held (h : Recovering n scan s₀ p₀ batches k s p) {id : StreamId}
    (hid : id ∈ s.group.heldByAny scan.staleConsumerNames) :
    taskOf s₀.group true id = taskOf s.group true id := by
  have hid₀ := h.balance.subset (List.mem_append_right _ hid)
  obtain ⟨name, -, hheld⟩ := List.mem_flatMap.mp hid₀
  obtain ⟨q, hq, -, rfl⟩ := ConsumerGroup.mem_heldBy.mp hheld
  obtain ⟨h₁, h₂⟩ := s₀.group.pending_le q hq
  obtain ⟨x, hx⟩ := ConsumerGroup.exists_entry h₁ (h₂.trans s₀.group.delivered_le)
  rw [taskOf, taskOf, hx, h.entries _ x hx]

/-- `XCLAIM` takes what was listed. -/
theorem claim (h : Recovering n scan s₀ p₀ batches k s p) (hn : scan.staleConsumerNames.Nodup)
    (hself : p₀.consumerName ∉ scan.staleConsumerNames)
    (hs : step s (.worker n .xclaim) = some t) : ∃ p', Recovering n scan s₀ p₀ batches (k + 1) t p' := by
  obtain ⟨u, p', hu, hg, hp'⟩ := worker_step h.process hs
  simp only [workerStep] at hu
  split at hu
  · rename_i scan' recovered names tasks consumer ids hl
    have hstand := h.standing
    rw [hl] at hstand
    obtain ⟨rfl, hrec, hlt, hids, asked, hasked, hheld⟩ := hstand
    obtain ⟨rfl, rfl⟩ := Prod.mk.inj (Option.some.inj hu)
    have hmem : consumer ∈ scan'.staleConsumerNames := by
      rw [hasked]
      exact List.mem_append_right _ List.mem_cons_self
    have hpend : ∀ id ∈ ids, id ∈ s.group.pending.map (·.id) := by
      intro id hid
      rw [hids] at hid
      exact ConsumerGroup.mem_pending_of_mem_heldBy (List.mem_of_mem_take hid)
    have hclaimed : s.group.claimedIds 0 ids s.clock = ids := ConsumerGroup.claimedIds_zero hpend _
    rw [hclaimed] at hp'
    have hbalance := ConsumerGroup.heldByAny_claim (g := s.group) hn hmem hself
      (p₀.config.claimCount - tasks.length) s.clock
    have hids' : (ids.filterMap (taskOf s.group true)).map (·.streamMessageId) = ids :=
      taskOf_map_id hpend
    have hlen : (ids.filterMap (taskOf s.group true)).length = ids.length := by
      have := congrArg List.length hids'
      rwa [List.length_map] at this
    rw [← hids, ← h.name] at hbalance
    have hme : ∀ name ∈ scan'.staleConsumerNames, name ≠ p.consumerName := by
      rintro name hname rfl
      exact hself (h.name ▸ hname)
    refine ⟨_, hp', h.config, h.name, h.entries_step hs, ?_, ?_, ?_, h.awaited, h.sizes, ?_⟩
    · refine ⟨rfl, hrec, asked ++ [consumer], by rw [hasked, List.append_assoc]; rfl, ?_⟩
      intro hpage name hname
      rw [hg]
      show (s.group.claim p.consumerName 0 ids s.clock).heldBy name = []
      rcases List.mem_append.mp hname with hname | hname
      · have hin : name ∈ scan'.staleConsumerNames := by
          rw [hasked]
          exact List.mem_append_left _ hname
        rw [ConsumerGroup.heldBy_claim (hme name hin), hheld name hname]
        rfl
      · rw [List.mem_singleton.mp hname, hids, ConsumerGroup.heldBy_claim_take (hme _ hmem)]
        -- the page has room left, so the listing was complete
        rw [List.length_append, hlen, hids, List.length_take] at hpage
        apply List.drop_eq_nil_of_le
        omega
    · rw [hg]
      show ((batches.flatten ++ (tasks ++ _)).map _ ++
        (s.group.claim p.consumerName 0 ids s.clock).heldByAny _).Perm _
      refine List.Perm.trans ?_ h.balance
      rw [hl, ← List.append_assoc, List.map_append, List.append_assoc, hids']
      exact hbalance.symm.append_left _
    · show ∀ task ∈ batches.flatten ++ (tasks ++ _), _
      rw [← List.append_assoc]
      intro task htask
      rcases List.mem_append.mp htask with htask | htask
      · apply h.parsed
        rw [hl]
        exact htask
      · obtain ⟨id, hid, ht⟩ := List.mem_filterMap.mp htask
        rw [(taskOf_some ht).1, ← ht]
        rw [hids] at hid
        exact h.taskOf_held (List.mem_flatMap.mpr ⟨consumer, hmem, List.mem_of_mem_take hid⟩)
    · have hsteps := h.steps
      unfold potential at hsteps ⊢
      rw [hl] at hsteps
      rw [hg]
      show _ + (_ * ((s.group.claim p.consumerName 0 ids s.clock).heldByAny _).length +
        (Loop.claiming _ _ names (tasks ++ _)).weight _ + p.taskWeight) ≤ _
      rw [hbalance.length_eq] at hsteps
      simp only [Loop.weight, List.length_append, hlen, Nat.mul_add, Nat.add_mul] at hsteps ⊢
      omega
  · cases hu

/-- What the consumers hold, where the loop stands and the process itself are as they were; tasks
may have gone on. -/
theorem frame (h : Recovering n scan s₀ p₀ batches k s p) {p' : Process} {m : Nat} {e : Event}
    (hs : step s e = some t) (hp' : t.processes[n]? = some p') (hloop : p'.loop = p.loop)
    (hconfig : p'.config = p.config) (hname : p'.consumerName = p.consumerName)
    (hheld : ∀ name ∈ scan.staleConsumerNames, t.group.heldBy name = s.group.heldBy name)
    (hawaited : ∀ c ∈ p'.coroutines, c.awaited = true → c.task ∈ batches.flatten)
    (hweight : m + p'.taskWeight ≤ k + p.taskWeight) :
    Recovering n scan s₀ p₀ batches m t p' := by
  have hany := ConsumerGroup.heldByAny_congr hheld
  refine ⟨hp', hconfig.trans h.config, hname.trans h.name, h.entries_step hs, ?_, ?_, ?_, hawaited,
    h.sizes, ?_⟩
  · rw [hloop]
    exact h.standing.congr hheld
  · rw [hany, hloop]
    exact h.balance
  · rw [hloop]
    exact h.parsed
  · have hsteps := h.steps
    unfold potential at hsteps ⊢
    rw [hany, hloop]
    omega

/-- A task that the loop waits for goes on, or acknowledges its message and returns. -/
theorem task (h : Recovering n scan s₀ p₀ batches k s p) (hn : scan.staleConsumerNames.Nodup)
    {e : WorkerEvent} (htask : p.HasTask e true) (hr : raises s p e = false)
    (hs : step s (.worker n e) = some t) : ∃ p', Recovering n scan s₀ p₀ batches (k + 1) t p' := by
  obtain ⟨j, hj, c, hc, haw⟩ := htask
  obtain ⟨u, p', hu, hg, hp'⟩ := worker_step h.process hs
  have hmem : c.task ∈ batches.flatten := h.awaited c (List.mem_of_getElem? hc) haw
  have hweight : c.weight = c.stage.weight := by rw [Coroutine.weight, if_pos haw]
  refine ⟨p', ?_⟩
  cases taskStep hu hj hc with
  | moved stage runtime hgroup hw _ =>
    refine h.frame hs hp' rfl rfl rfl (fun name _ => by rw [hg, hgroup]) (fun d hd hda => ?_) ?_
    · rcases List.mem_or_eq_of_mem_set hd with hd | rfl
      · exact h.awaited d hd hda
      · exact hmem
    · have hset := taskWeight_setStage hc stage runtime
      have hnew : ({ c with stage := stage } : Coroutine).weight = stage.weight := by
        rw [Coroutine.weight, if_pos haw]
      omega
  | acked hgroup hw _ =>
    refine h.frame hs hp' rfl rfl rfl (fun name hname => ?_) (fun d hd hda => ?_) ?_
    · rw [hg, hgroup]
      exact ConsumerGroup.heldBy_ack (h.notMem_held hn (List.mem_append_left _ hmem) hname)
    · exact h.awaited d (List.mem_of_mem_eraseIdx hd) hda
    · have herase := taskWeight_finished hc
      omega
  | failed _ hraises =>
    rw [hr] at hraises
    cases hraises

/-- What happens outside of the iteration. -/
theorem outside (h : Recovering n scan s₀ p₀ batches k s p) {e : Event} (ho : Outside n s e)
    (hkeep : ∀ name ∈ scan.staleConsumerNames, t.group.heldBy name = s.group.heldBy name)
    (hs : step s e = some t) : ∃ p', Recovering n scan s₀ p₀ batches k t p' := by
  obtain ⟨p', hp', haside⟩ := ho.process h.process hs
  refine ⟨p', h.frame hs hp' haside.loop haside.config haside.name hkeep (fun c hc haw => ?_) ?_⟩
  · exact h.awaited c (haside.awaited c hc haw) haw
  · rw [haside.weight]

end Recovering

theorem Standing.start (scan : RecoverySummary) (config : WorkerConfig) (g : Group) :
    Standing scan config g 0 (.afterScan scan) := by
  unfold Loop.afterScan
  split
  · exact ⟨rfl, rfl, [], rfl, fun _ name hname => absurd hname List.not_mem_nil⟩
  · rename_i hne
    refine .left fun name hname => ?_
    rw [not_not.mp hne] at hname
    exact absurd hname List.not_mem_nil

theorem Standing.over {scan : RecoverySummary} {config : WorkerConfig} {g : Group} {handed : Nat}
    {loop : Loop} (h : Standing scan config g handed loop) (hl : loop.draining = false) :
    loop = .afterClaims scan handed ∧ ∀ name ∈ scan.staleConsumerNames, g.heldBy name = [] := by
  cases loop with
  | claiming | listed => cases hl
  | processing rest next =>
    cases next with
    | claim => cases hl
    | autoclaim | finish => exact h
  | start | autoclaiming | offlining | reading | stopping | exited => exact h

/-! ## Runs -/

section Run

variable {n : Nat} {s₀ : State} {p₀ : Process} {scan : RecoverySummary}

/-- A recovery begins with the scan of `p₀` and waits for no task. -/
theorem recovering_start (hp : s₀.processes[n]? = some p₀) (hloop : p₀.loop = .afterScan scan)
    (hidle : ∀ c ∈ p₀.coroutines, c.awaited = false) :
    Recovering n scan s₀ p₀ [] 0 s₀ p₀ where
  process := hp
  config := rfl
  name := rfl
  entries := fun _ _ h => h
  standing := by
    rw [hloop]
    exact .start scan _ _
  balance := by
    rw [hloop, Process.afterScan_tasks]
    exact List.Perm.refl _
  parsed := by
    rw [hloop, Process.afterScan_tasks]
    exact fun task ht => absurd ht List.not_mem_nil
  awaited := by
    intro c hc haw
    rw [hidle c hc] at haw
    cases haw
  sizes := fun batch hb => absurd hb List.not_mem_nil
  steps := by rw [Nat.zero_add]

theorem handed_task {p : Process} {e : WorkerEvent} (h : p.HasTask e true) : p.handed e = [] := by
  obtain ⟨j, hj, -⟩ := h
  cases e with
  | proceed => cases hj
  | heartbeat | recoverStaleWorkers | xpending | xclaim | xautoclaim | markWorkersOffline
  | xreadgroup | markRunning | refresh | execute | markFinished | xack | failTask | failIteration
  | interrupt | markOffline | stop => rfl

/-- **The invariant holds along every draining run.** -/
theorem recovering (hp : s₀.processes[n]? = some p₀) (hloop : p₀.loop = .afterScan scan)
    (hidle : ∀ c ∈ p₀.coroutines, c.awaited = false) (hn : scan.staleConsumerNames.Nodup)
    (hself : p₀.consumerName ∉ scan.staleConsumerNames) (hcount : 0 < p₀.config.claimCount)
    (hconc : 0 < p₀.config.maxConcurrency) {batches : List (List InvocationTask)} {k : Nat}
    {s : State} (h : Draining n scan.staleConsumerNames s₀ batches k s) :
    ∃ p, Recovering n scan s₀ p₀ batches k s p := by
  induction h with
  | start => exact ⟨p₀, recovering_start hp hloop hidle⟩
  | meanwhile _ ho hkeep hs ih =>
    obtain ⟨p, hrec⟩ := ih
    exact hrec.outside ho hkeep hs
  | @advance batches k s t p e _ hp' hl ha hr hs ih =>
    obtain ⟨q, hrec⟩ := ih
    obtain rfl := Option.some.inj (hrec.process.symm.trans hp')
    rcases ha with hloop' | ht
    · cases e with
      | proceed => exact hrec.proceed hcount hconc hl hs
      | xpending =>
        rw [show q.handed .xpending = [] from rfl, List.append_nil]
        exact hrec.list hs
      | xclaim =>
        rw [show q.handed .xclaim = [] from rfl, List.append_nil]
        exact hrec.claim hn hself hs
      | heartbeat | recoverStaleWorkers | xautoclaim | markWorkersOffline | xreadgroup
      | markRunning | refresh | execute | markFinished | xack | failTask | failIteration | interrupt
      | markOffline | stop => cases hloop'
    · rw [handed_task ht, List.append_nil]
      exact hrec.task hn ht hr hs

end Run

/-- A coroutine is made to raise from outside its own calls. -/
def WorkerEvent.isFailTask : WorkerEvent → Bool
  | .failTask _ => true
  | _ => false

/-- The next call of a coroutine can be made. -/
theorem task_enabled (s : State) {p : Process} {j : Nat} {c : Coroutine}
    (hc : p.coroutines[j]? = some c) :
    ∃ e : WorkerEvent, e.coroutine = some j ∧ e.isFailTask = false ∧
      (workerStep s p e).isSome = true := by
  obtain ⟨task, stage, awaited⟩ := c
  cases stage with
  | ready => exact ⟨.markRunning j 0, rfl, rfl, by simp [workerStep, hc]⟩
  | refreshing attempt => exact ⟨.refresh j, rfl, rfl, by simp [workerStep, hc]⟩
  | executing attempt =>
    exact ⟨.execute j (.succeeded .null), rfl, rfl, by simp [workerStep, hc]; decide⟩
  | finishing attempt result => exact ⟨.markFinished j id 0, rfl, rfl, by simp [workerStep, hc]⟩
  | acking => exact ⟨.xack j, rfl, rfl, by simp [workerStep, hc]⟩

/-- Inside the recovery loop the process is never stuck: it can take a step itself, or a task that
it waits for can make its next call. -/
theorem loop_enabled (s : State) {p : Process} (hl : p.loop.draining = true) :
    ∃ e, p.Advances e ∧ e.isFailTask = false ∧ (workerStep s p e).isSome = true := by
  cases hloop : p.loop with
  | claiming scan recovered names tasks =>
    by_cases hover : names = [] ∨ p.config.claimCount ≤ tasks.length
    · refine ⟨.proceed, .inl rfl, rfl, ?_⟩
      simp only [workerStep, Process.proceed, hloop, if_pos hover]
      split <;> rfl
    · obtain ⟨hne, hlt⟩ := not_or.mp hover
      obtain ⟨name, names, rfl⟩ := List.exists_cons_of_ne_nil hne
      refine ⟨.xpending, .inl rfl, rfl, ?_⟩
      simp only [workerStep, hloop, if_neg hlt]
      split <;> rfl
  | listed => exact ⟨.xclaim, .inl rfl, rfl, by simp [workerStep, hloop]⟩
  | processing rest next =>
    by_cases hany : p.coroutines.any (·.awaited) = true
    · obtain ⟨c, hc, haw⟩ := List.any_eq_true.mp hany
      obtain ⟨j, hj⟩ := List.mem_iff_getElem?.mp hc
      obtain ⟨e, he, hown, hsome⟩ := task_enabled s hj
      exact ⟨e, .inr ⟨j, he, c, hj, haw⟩, hown, hsome⟩
    · refine ⟨.proceed, .inl rfl, rfl, ?_⟩
      simp only [workerStep, Process.proceed, hloop, if_neg hany]
      split
      · rfl
      · split <;> rfl
  | start | autoclaiming | offlining | reading | stopping | exited =>
    rw [hloop] at hl
    cases hl

/-! ## When a task raises -/

/-- The iteration is over, and no recovery has begun. -/
def Loop.broken : Loop → Bool
  | .start | .stopping | .exited => true
  | .claiming .. | .listed .. | .autoclaiming .. | .offlining .. | .reading | .processing .. => false

theorem loop_of_raises {s u : State} {p p' : Process} {e : WorkerEvent} (ht : p.HasTask e true)
    (hr : raises s p e = true) (h : workerStep s p e = some (u, p')) : p'.loop = .start := by
  obtain ⟨j, hj, c, hc, haw⟩ := ht
  cases taskStep h hj hc with
  | moved stage runtime hg hw hr' =>
    rw [hr'] at hr
    cases hr
  | acked hg hw hr' =>
    rw [hr'] at hr
    cases hr
  | failed hg => rw [Process.failed, if_pos haw]

/-- Without a new scan no recovery begins. -/
theorem WorkerEffect.broken {s u : State} {p p' : Process} {e : WorkerEvent}
    (h : WorkerEffect s p e u p') (hl : p.loop.broken = true) (he : e ≠ .recoverStaleWorkers) :
    p'.loop.broken = true := by
  cases h with
  | own e p' h =>
    cases h with
    | proceeded p' h =>
      unfold Process.proceed at h
      split at h
      · rename_i hl'
        rw [hl'] at hl
        cases hl
      · rename_i hl'
        rw [hl'] at hl
        cases hl
      · cases h
    | skipped scan recovered name names tasks hl' | listed scan recovered name names tasks hl' =>
      rw [hl'] at hl
      cases hl
    | refreshed | executed => exact hl
    | failed j c hc =>
      unfold Process.failed
      split
      · rfl
      · exact hl
    | iterationFailed p' h =>
      unfold Process.failIteration at h
      split at h <;> cases h <;> rfl
    | interrupted p' h =>
      unfold Process.interrupt at h
      split at h <;> cases h
      rfl
    | stopped => rfl
  | heartbeat => exact hl
  | scanned => exact absurd rfl he
  | claimed scan recovered names tasks consumer ids hl' =>
    rw [hl'] at hl
    cases hl
  | autoclaimed scan recovered startId ids nextStartId claimed hl' =>
    rw [hl'] at hl
    cases hl
  | offlined scan recovered hl' =>
    rw [hl'] at hl
    cases hl
  | read hl' =>
    rw [hl'] at hl
    cases hl
  | started | dismissed | finished => exact hl
  | notStarted j c =>
    unfold Process.failed
    split
    · rfl
    · exact hl
  | acked => exact hl
  | shutDown => rfl

/-- After a task has raised, the process marks nobody offline before it has scanned again. -/
theorem raised_not_marked {s u v : State} {n : Nat} {p : Process} {e : WorkerEvent}
    (hp : s.processes[n]? = some p) (ht : p.HasTask e true) (hr : raises s p e = true)
    (hs : step s (.worker n e) = some u)
    (hrun : Steps step (fun _ e => e ≠ .worker n .recoverStaleWorkers) u v) :
    step v (.worker n .markWorkersOffline) = none := by
  have hbroken : ∃ q, v.processes[n]? = some q ∧ q.loop.broken = true := by
    induction hrun with
    | refl =>
      obtain ⟨w, p', hw, -, hp'⟩ := worker_step hp hs
      exact ⟨p', hp', by rw [loop_of_raises ht hr hw]; rfl⟩
    | tail _ he hstep ih =>
      obtain ⟨q, hq, hl⟩ := ih
      rcases process_step hq hstep with hq' | ⟨e', w, q', rfl, hw, hq'⟩
      · exact ⟨q, hq', hl⟩
      · refine ⟨q', hq', (workerStep_effect hw).broken hl ?_⟩
        rintro rfl
        exact he rfl
  obtain ⟨q, hq, hl⟩ := hbroken
  have hnone : workerStep v q .markWorkersOffline = none := by
    simp only [workerStep]
    split
    · rename_i hl'
      rw [hl'] at hl
      cases hl
    · rfl
  simp only [step, hq, Option.bind_some, hnone, Option.map_none]

/-! ## What is awaited between two batches -/

def Loop.isProcessing : Loop → Bool
  | .processing .. => true
  | .start | .claiming .. | .listed .. | .autoclaiming .. | .offlining .. | .reading | .stopping
  | .exited => false

/-- Only while a batch is processed are coroutines awaited. -/
def Process.Settled (p : Process) : Prop :=
  p.loop.isProcessing = false → ∀ c ∈ p.coroutines, c.awaited = false

namespace Process.Settled

variable {p : Process}

/-- No more is awaited than before, and the loop was between two batches if it is now. -/
theorem of_awaited (h : p.Settled) {p' : Process}
    (hl : p'.loop.isProcessing = false → p.loop.isProcessing = false)
    (hc : ∀ c ∈ p'.coroutines, c.awaited = true → ∃ d ∈ p.coroutines, d.awaited = true) :
    p'.Settled := by
  intro hp' c hcm
  by_contra haw
  obtain ⟨d, hd, hda⟩ := hc c hcm (Bool.eq_true_of_not_eq_false haw)
  rw [h (hl hp') d hd] at hda
  cases hda

theorem goTo (h : p.Settled) (loop : Loop) (hl : p.loop.isProcessing = false) :
    (p.goTo loop).Settled :=
  h.of_awaited (fun _ => hl) fun c hc haw => ⟨c, hc, haw⟩

theorem setStage (h : p.Settled) {j : Nat} {c : Coroutine} (hc : p.coroutines[j]? = some c)
    (stage : Stage) (runtime : WorkerRuntimeState) :
    ({ p.setStage j c stage with runtime := runtime } : Process).Settled := by
  refine h.of_awaited id fun d hd hda => ?_
  rcases List.mem_or_eq_of_mem_set hd with hd | rfl
  · exact ⟨d, hd, hda⟩
  · exact ⟨c, List.mem_of_getElem? hc, hda⟩

theorem finished (h : p.Settled) (j : Nat) : (p.finished j).Settled :=
  h.of_awaited id fun c hc haw => ⟨c, List.mem_of_mem_eraseIdx hc, haw⟩

theorem failed (h : p.Settled) (j : Nat) (c : Coroutine) : (p.failed j c).Settled := by
  unfold Process.failed
  split
  · intro _ d hd
    obtain ⟨d', -, rfl⟩ := List.mem_map.mp hd
    rfl
  · exact h.finished j

theorem proceed (h : p.Settled) {p' : Process} (hp : p.proceed = some p') : p'.Settled := by
  unfold Process.proceed at hp
  split at hp
  · rename_i hl
    have hbetween : p.loop.isProcessing = false := by rw [hl]; rfl
    split at hp
    · split at hp
      · cases hp
        exact h.goTo _ hbetween
      · cases hp
        exact h.goTo _ hbetween
    · cases hp
  · split at hp
    · cases hp
    rename_i hany
    have hnone : ∀ c ∈ p.coroutines, c.awaited = false := by
      intro c hc
      exact Bool.eq_false_of_not_eq_true fun haw => hany (List.any_eq_true.mpr ⟨c, hc, haw⟩)
    split at hp
    · cases hp
      exact fun _ => hnone
    split at hp
    · cases hp
      exact fun _ => hnone
    · cases hp
      intro hl
      cases hl
  · cases hp

theorem effect {s u : State} {p' : Process} {e : WorkerEvent} (h : p.Settled)
    (he : WorkerEffect s p e u p') : p'.Settled := by
  cases he with
  | own e p' ho =>
    cases ho with
    | proceeded p' hp => exact h.proceed hp
    | skipped scan recovered name names tasks hl => exact h.goTo _ (by rw [hl]; rfl)
    | listed scan recovered name names tasks hl => exact h.goTo _ (by rw [hl]; rfl)
    | refreshed j c attempt hc => exact h.setStage hc _ _
    | executed j c attempt result hc => exact h.setStage hc _ _
    | failed j c => exact h.failed j c
    | iterationFailed p' hp =>
      unfold Process.failIteration at hp
      split at hp <;> cases hp <;> rename_i hl <;> exact h.goTo _ (by rw [hl]; rfl)
    | interrupted p' hp =>
      unfold Process.interrupt at hp
      split at hp <;> cases hp
      intro _ c hc
      simpa using (List.mem_filter.mp hc).2
    | stopped => exact fun _ c hc => absurd hc List.not_mem_nil
  | heartbeat => exact h
  | scanned scan hl hscan => exact h.goTo _ (by rw [hl]; rfl)
  | claimed scan recovered names tasks consumer ids hl => exact h.goTo _ (by rw [hl]; rfl)
  | autoclaimed scan recovered startId ids nextStartId claimed hl =>
    exact h.goTo _ (by rw [hl]; rfl)
  | offlined scan recovered hl => exact h.goTo _ (by rw [hl]; rfl)
  | read hl => exact h.goTo _ (by rw [hl]; rfl)
  | started j c attemptId db attempt hc => exact h.setStage hc _ p.runtime
  | dismissed j c attemptId db error hc => exact h.setStage hc _ p.runtime
  | notStarted j c => exact h.failed j c
  | finished j c attempt result jitter dispatchId db row hc => exact h.setStage hc _ p.runtime
  | acked j => exact h.finished j
  | shutDown db hl => exact h.goTo _ (by rw [hl]; rfl)

end Process.Settled

/-- A recovery begins with nothing awaited, in every reachable state. -/
theorem settled_reachable {s : State} (h : Reachable step init s) :
    ∀ p ∈ s.processes, p.Settled := by
  refine Reachable.invariant (I := fun s => ∀ p ∈ s.processes, p.Settled)
    (fun s hi p hp => ?_) (fun _ hb hs => ?_) h
  · obtain ⟨-, -, -, hproc, -⟩ := hi
    rw [hproc] at hp
    exact absurd hp List.not_mem_nil
  · refine processes_step (fun _ _ _ _ c hc => absurd hc List.not_mem_nil) hb hs ?_
    rintro n e p u p' rfl hp hw
    exact (hb p (List.mem_of_getElem? hp)).effect (workerStep_effect hw)

theorem Loop.isProcessing_afterScan (scan : RecoverySummary) :
    (Loop.afterScan scan).isProcessing = false := by
  unfold Loop.afterScan Loop.afterClaims Loop.afterAutoclaim Loop.afterRecovery
  repeat' split
  all_goals rfl

/-- The stale scan of a reachable state is where a recovery begins. -/
theorem recovery_begins {s t : State} {n : Nat} {p : Process} {scan : RecoverySummary}
    (h : Reachable step init s) (hp : s.processes[n]? = some p)
    (hscan : (recoverStaleWorkers s.db p.config.staleWorkerSeconds p.config.maxAttempts s.clock).2 =
      .ok scan) (hs : step s (.worker n .recoverStaleWorkers) = some t) :
    ∃ p₀, t.processes[n]? = some p₀ ∧ p₀.config = p.config ∧ p₀.consumerName = p.consumerName ∧
      p₀.loop = .afterScan scan ∧ ∀ c ∈ p₀.coroutines, c.awaited = false := by
  obtain ⟨u, p', hu, -, hp'⟩ := worker_step hp hs
  have hsettled := settled_reachable (h.next hs) p' (List.mem_of_getElem? hp')
  simp only [workerStep] at hu
  split at hu
  · split at hu
    · rename_i hfound
      rw [hfound] at hscan
      cases hscan
      cases hu
      exact ⟨_, hp', rfl, rfl, rfl, hsettled (Loop.isProcessing_afterScan _)⟩
    · rename_i hfound
      rw [hfound] at hscan
      cases hscan
  · cases hu

/-! ## Draining is complete -/

/-- What a recovery has done when it leaves its loop. `next` says that it goes on to mark the
workers offline. -/
structure Drained (scan : RecoverySummary) (s₀ : State) (config : WorkerConfig)
    (batches : List (List InvocationTask)) (t : State) (p : Process) : Prop where
  next : scan.staleWorkerIds ≠ [] → p.loop = .offlining scan batches.flatten.length
  nothing_held : ∀ name ∈ scan.staleConsumerNames, t.group.heldBy name = []
  once : (batches.flatten.map (·.streamMessageId)).Perm
    (s₀.group.heldByAny scan.staleConsumerNames)
  nodup : (batches.flatten.map (·.streamMessageId)).Nodup
  recovered : ∀ task ∈ batches.flatten,
    task.recovered = true ∧ taskOf s₀.group true task.streamMessageId = some task
  sizes : ∀ batch ∈ batches, batch.length ≤ config.maxConcurrency

theorem Recovering.drained {n : Nat} {scan : RecoverySummary} {s₀ t : State} {p₀ p : Process}
    {batches : List (List InvocationTask)} {k : Nat} (h : Recovering n scan s₀ p₀ batches k t p)
    (hn : scan.staleConsumerNames.Nodup)
    (hall : scan.staleConsumerNames.length = scan.staleWorkerIds.length)
    (hl : p.loop.draining = false) : Drained scan s₀ p₀.config batches t p := by
  obtain ⟨hloop, hheld⟩ := h.standing.over hl
  have htasks : p.loop.tasks = [] := by rw [hloop, Process.afterClaims_tasks]
  have honce : (batches.flatten.map (·.streamMessageId)).Perm
      (s₀.group.heldByAny scan.staleConsumerNames) := by
    have hb := h.balance
    rwa [htasks, List.append_nil, ConsumerGroup.heldByAny_eq_nil.mpr hheld, List.append_nil] at hb
  refine ⟨fun hne => ?_, hheld, honce, ?_, fun task ht => ?_, h.sizes⟩
  · rw [hloop, Loop.afterClaims, if_neg (by omega), Loop.afterAutoclaim, if_pos hne]
  · exact honce.nodup_iff.mpr (ConsumerGroup.heldByAny_nodup hn)
  · have hparsed := h.parsed task (List.mem_append_left _ ht)
    exact ⟨(taskOf_some hparsed).2, hparsed⟩

/-- **Draining dead workers ends and is complete.** In every run in which nobody else touches what
the consumers of the stale workers hold and no `process_task` raises, the recovery takes a bounded
number of steps, it is never stuck, and when it leaves its loop every message has been handed over
once and nothing is left. If a `process_task` raises, the workers are not marked offline. -/
theorem dead_workers_drained {n : Nat} {s₀ : State} {p₀ : Process} {scan : RecoverySummary}
    (hp : s₀.processes[n]? = some p₀) (hloop : p₀.loop = .afterScan scan)
    (hidle : ∀ c ∈ p₀.coroutines, c.awaited = false)
    (hall : scan.staleConsumerNames.length = scan.staleWorkerIds.length)
    (hn : scan.staleConsumerNames.Nodup) (hself : p₀.consumerName ∉ scan.staleConsumerNames)
    (hcount : 0 < p₀.config.pendingMessageClaimCount) (hconc : 0 < p₀.config.maxConcurrency) :
    (∀ batches k t, Draining n scan.staleConsumerNames s₀ batches k t →
      ∃ p, t.processes[n]? = some p ∧
        k ≤ (2 * scan.staleConsumerNames.length + 11) *
          (s₀.group.heldByAny scan.staleConsumerNames).length +
            (2 * scan.staleConsumerNames.length + 1) ∧
        (p.loop.draining = true →
          ∃ e, p.Advances e ∧ e.isFailTask = false ∧ (step t (.worker n e)).isSome = true) ∧
        (p.loop.draining = false → Drained scan s₀ p₀.config batches t p)) ∧
    ∀ s p e u v, s.processes[n]? = some p → p.loop.draining = true → p.HasTask e true →
      raises s p e = true → step s (.worker n e) = some u →
      Steps step (fun _ e => e ≠ .worker n .recoverStaleWorkers) u v →
      step v (.worker n .markWorkersOffline) = none := by
  refine ⟨fun batches k t h => ?_, fun s p e u v hp _ ht hr hs hrun =>
    raised_not_marked hp ht hr hs hrun⟩
  have hclaim : 0 < p₀.config.claimCount := by
    unfold WorkerConfig.claimCount
    omega
  obtain ⟨p, hrec⟩ := recovering hp hloop hidle hn hself hclaim hconc h
  refine ⟨p, hrec.process, ?_, fun hl => ?_, hrec.drained hn hall⟩
  · have hsteps := hrec.steps
    have htask : p₀.taskWeight = 0 := taskWeight_idle hidle
    have hstart := weight_afterScan scan
    unfold potential at hsteps
    rw [hloop] at hsteps
    omega
  · obtain ⟨e, ha, hown, hsome⟩ := loop_enabled t hl
    refine ⟨e, ha, hown, ?_⟩
    simp only [step, hrec.process, Option.bind_some, Option.isSome_map, hsome]

/-- Replay steps of the recovery of process `n`, with the batches they hand over. -/
def replayDraining (n : Nat) : State → List WorkerEvent → Option (List (List InvocationTask) × State)
  | s, [] => some ([], s)
  | s, e :: es =>
    (s.processes[n]?).bind fun p =>
      if p.loop.draining = true ∧ p.Advances e ∧ raises s p e = false then
        (step s (.worker n e)).bind fun t =>
          (replayDraining n t es).map fun (batches, u) => (p.handed e ++ batches, u)
      else none

theorem Draining.replayed {n : Nat} {names : List String} {s₀ : State} :
    ∀ {es : List WorkerEvent} {s t : State} {batches batches' : List (List InvocationTask)} {k : Nat},
      Draining n names s₀ batches k s → replayDraining n s es = some (batches', t) →
      Draining n names s₀ (batches ++ batches') (k + es.length) t
  | [], s, t, batches, batches', k, h, hr => by
    simp only [replayDraining, Option.some.injEq, Prod.mk.injEq] at hr
    obtain ⟨rfl, rfl⟩ := hr
    rwa [List.append_nil]
  | e :: es, s, t, batches, batches', k, h, hr => by
    obtain ⟨p, hp, hr⟩ := Option.bind_eq_some_iff.mp hr
    simp only [Option.ite_none_right_eq_some] at hr
    obtain ⟨⟨hl, ha, hraise⟩, hr⟩ := hr
    obtain ⟨u, hu, hr⟩ := Option.bind_eq_some_iff.mp hr
    obtain ⟨⟨rest, v⟩, hv, he⟩ := Option.map_eq_some_iff.mp hr
    obtain ⟨rfl, rfl⟩ := Prod.mk.inj he
    have hnext := (Draining.advance h hp hl ha hraise hu).replayed hv
    rw [List.append_assoc] at hnext
    rw [List.length_cons, Nat.add_comm es.length 1, ← Nat.add_assoc]
    exact hnext

/-- The first of two workers dies with three messages. The other one takes at most two at a time,
and is about to scan. -/
def diedWithThree : List Event :=
  [.register 10 "host" "a" true ⟨30, 3, 3, 10⟩, .register 11 "host" "b" true ⟨30, 3, 2, 10⟩] ++
    [30, 31, 32].map (fun id => .createInvocation
      { ownerId := 7, functionName := "hello", payload := .null } (helloVersion 300) id (id + 10) 0) ++
    [.select 100, .publish 0 .returned, .publish 0 .returned, .publish 0 .returned, .commit 0] ++
    readNew 0 ++ [.tick (seconds 31), .worker 0 .stop, .worker 1 .heartbeat]

/-- `process_task` of the first coroutine, from its start to its end. -/
def processFirst (attemptId dispatchId : UUID) : List WorkerEvent :=
  [.markRunning 0 attemptId, .refresh 0, .execute 0 (.succeeded (.str "done")),
    .markFinished 0 id dispatchId, .xack 0]

/-- A full page of two messages, and a page with the third. -/
def twoPages : List WorkerEvent :=
  [.xpending, .xclaim, .proceed, .proceed] ++ processFirst 50 60 ++ processFirst 51 61 ++
    [.proceed, .xpending, .xclaim, .proceed, .proceed] ++ processFirst 52 62 ++ [.proceed]

/-- The scan that worker 1 is about to make finds worker 0, and its recovery runs `twoPages`. -/
def drainsTwoPages (s : State) : Bool :=
  (s.processes[1]?).any fun p =>
    match (recoverStaleWorkers s.db p.config.staleWorkerSeconds p.config.maxAttempts s.clock).2 with
    | .error _ => false
    | .ok scan =>
      decide (scan.staleConsumerNames = ["a"] ∧ scan.staleWorkerIds = [10] ∧ p.consumerName = "b" ∧
        p.config.pendingMessageClaimCount = 10 ∧ p.config.maxConcurrency = 2) &&
      ((step s (.worker 1 .recoverStaleWorkers)).bind fun s₀ => replayDraining 1 s₀ twoPages).any
        fun (batches, t) => batches.map (·.length) = [2, 1] &&
          (t.processes[1]?).any fun p => !p.loop.draining

/-- Three messages of a dead worker are handed over in two batches, and nothing is left. -/
theorem dead_workers_drained_pages : ∃ s₀ config scan batches t p,
    Draining 1 scan.staleConsumerNames s₀ batches 25 t ∧ batches.map (·.length) = [2, 1] ∧
      t.processes[1]? = some p ∧ Drained scan s₀ config batches t p := by
  obtain ⟨s, hreach, hs⟩ := reachable_of_replay step diedWithThree drainsTwoPages init_empty
    (by decide +kernel)
  obtain ⟨p, hp, hs⟩ := (Option.any_eq_true _ _).mp hs
  split at hs
  · cases hs
  rename_i scan hscan
  obtain ⟨hfound, hrun⟩ := Bool.and_eq_true_iff.mp hs
  obtain ⟨hnames, hids, hme, hcount, hconc⟩ := of_decide_eq_true hfound
  obtain ⟨⟨batches, t⟩, hrun, hend⟩ := (Option.any_eq_true _ _).mp hrun
  obtain ⟨s₀, hstep, hreplay⟩ := Option.bind_eq_some_iff.mp hrun
  obtain ⟨p₀, hp₀, hconfig, hname, hloop, hidle⟩ := recovery_begins hreach hp hscan hstep
  simp only [Bool.and_eq_true, decide_eq_true_eq] at hend
  obtain ⟨hlengths, hover⟩ := hend
  have hdrained := (dead_workers_drained hp₀ hloop hidle (by rw [hnames, hids]; rfl)
    (by rw [hnames]; exact List.nodup_singleton _)
    (by rw [hname, hme, hnames]; decide) (by rw [hconfig, hcount]; decide)
    (by rw [hconfig, hconc]; decide)).1
  obtain ⟨q, hq, -, -, hq'⟩ := hdrained _ _ _ (Draining.start.replayed hreplay)
  rw [hq, Option.any_some, Bool.not_eq_true'] at hover
  exact ⟨s₀, _, _, batches, t, q, Draining.start.replayed hreplay, hlengths, hq, hq' hover⟩

end Serverless.Cluster
