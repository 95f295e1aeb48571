import Serverless.Cluster.Crew

/-!
# How much a worker does at a time

`process_task_batches` awaits at most `max_concurrency` coroutines, and the next batch is
only made when none of them is awaited any more. An exception ends that early: the others
of the batch run on next to what the next iteration starts. As long as no exception leaves
a coroutine next to another one, the bound holds in every state; the number of active
invocations that the worker reports is right in any case.
-/
namespace Serverless.Cluster

open Serverless.Library Serverless.Model

namespace Process

/-- The coroutine has got past `mark_running`, or has been dismissed by it and has still to
acknowledge its message. -/
def isActive (c : Coroutine) : Bool :=
  match c.stage with
  | .ready => false
  | .refreshing _ | .executing _ | .finishing _ _ | .acking => true

/-- No coroutine is left to itself, and they are not too many. -/
structure Bounded (p : Process) : Prop where
  awaited : ∀ c ∈ p.coroutines, c.awaited = true
  length_le : p.coroutines.length ≤ p.config.maxConcurrency

namespace Bounded

variable {p : Process} {j : Nat} {c : Coroutine}

theorem goTo (h : p.Bounded) (loop : Loop) : (p.goTo loop).Bounded := ⟨h.awaited, h.length_le⟩

theorem setStage (h : p.Bounded) (hc : p.coroutines[j]? = some c) (stage : Stage) :
    (p.setStage j c stage).Bounded := by
  constructor
  · intro d hd
    rcases List.mem_or_eq_of_mem_set hd with hd | rfl
    · exact h.awaited d hd
    · exact h.awaited c (List.mem_of_getElem? hc)
  · have hlen : (p.setStage j c stage).coroutines.length = p.coroutines.length :=
      List.length_set
    rw [hlen]
    exact h.length_le

theorem finished (h : p.Bounded) (j : Nat) : (p.finished j).Bounded := by
  have hsub : (p.finished j).coroutines.Sublist p.coroutines := List.eraseIdx_sublist _ _
  exact ⟨fun d hd => h.awaited d (hsub.subset hd), hsub.length_le.trans h.length_le⟩

/-- A coroutine that fails alone leaves nothing behind. -/
theorem failed (hc : p.coroutines[j]? = some c) (hone : p.coroutines.length ≤ 1) :
    (p.failed j c).Bounded := by
  obtain ⟨hlt, -⟩ := List.getElem?_eq_some_iff.mp hc
  have hnil : p.coroutines.eraseIdx j = [] := by
    apply List.eq_nil_of_length_eq_zero
    rw [List.length_eraseIdx_of_lt hlt]
    omega
  unfold Process.failed Process.finished
  rw [hnil]
  split
  · exact ⟨fun d hd => absurd hd List.not_mem_nil, Nat.zero_le _⟩
  · exact ⟨fun d hd => absurd hd List.not_mem_nil, Nat.zero_le _⟩

theorem proceed {p' : Process} (h : p.Bounded) (hp : p.proceed = some p') : p'.Bounded := by
  unfold Process.proceed at hp
  split at hp
  · split at hp
    · split at hp
      · cases hp
        exact h.goTo _
      · cases hp
        exact h.goTo _
    · cases hp
  · rename_i rest next hl
    split at hp
    · cases hp
    rename_i hany
    split at hp
    · cases hp
      exact h.goTo _
    split at hp
    · cases hp
      exact h.goTo _
    · cases hp
      -- nothing is awaited, and everything was: the batch starts from nothing
      have hnil : p.coroutines = [] := by
        cases hcs : p.coroutines with
        | nil => rfl
        | cons d ds =>
          rw [List.any_eq_true] at hany
          exact absurd ⟨d, by simp [hcs], h.awaited d (by simp [hcs])⟩ hany
      constructor
      · intro d hd
        dsimp only at hd
        rw [hnil, List.nil_append] at hd
        obtain ⟨t, -, rfl⟩ := List.mem_map.mp hd
        rfl
      · dsimp only
        rw [hnil, List.nil_append, List.length_map, List.length_take]
        exact Nat.min_le_left _ _
  · cases hp

theorem failIteration {p' : Process} (h : p.Bounded) (hp : p.failIteration = some p') :
    p'.Bounded := by
  unfold Process.failIteration at hp
  split at hp <;> cases hp <;> exact h.goTo _

theorem interrupt {p' : Process} (h : p.Bounded) (hp : p.interrupt = some p') : p'.Bounded := by
  unfold Process.interrupt at hp
  split at hp
  · cases hp
  · cases hp
  · cases hp
    constructor
    · exact fun d hd => h.awaited d (List.mem_of_mem_filter hd)
    · exact (List.length_filter_le _ _).trans h.length_le

end Bounded

end Process

/-- The event lets an exception leave a coroutine. -/
def raises (s : State) (p : Process) : WorkerEvent → Bool
  | .failTask _ => true
  | .markRunning j attemptId =>
    (p.coroutines[j]?).any fun c =>
      match (markRunning s.db c.task (some p.workerId) attemptId s.clock).2 with
      | .error e => !acknowledges e
      | .ok _ => false
  | .markFinished j jitter dispatchId =>
    (p.coroutines[j]?).any fun c =>
      match c.stage with
      | .finishing attempt result =>
        match (markFinished s.db c.task.invocationId attempt.id (some attempt) result
          (RetryPolicy.decide { maxAttempts := p.config.maxAttempts, jitter := jitter } result
            attempt.attemptNumber) dispatchId s.clock).2 with
        | .error _ => true
        | .ok _ => false
      | _ => false
  | _ => false

/-- No exception leaves a coroutine next to another one of its process. -/
def FailsAlone (s : State) : Event → Prop
  | .worker n e => ∀ p, s.processes[n]? = some p → raises s p e = true → p.coroutines.length ≤ 1
  | .tick _ | .createInvocation .. | .select _ | .publish .. | .commit _ | .rollback _
  | .register .. => True

namespace Loop

/-- The main task has been interrupted. -/
def isOver : Loop → Bool
  | .stopping | .exited => true
  | .start | .claiming .. | .listed .. | .autoclaiming .. | .offlining .. | .reading
  | .processing .. => false

theorem isOver_afterRecovery (recovered : Nat) : (afterRecovery recovered).isOver = false := by
  unfold afterRecovery
  split <;> rfl

theorem isOver_afterAutoclaim (scan : RecoverySummary) (recovered : Nat) :
    (afterAutoclaim scan recovered).isOver = false := by
  unfold afterAutoclaim
  split
  · rfl
  · exact isOver_afterRecovery recovered

theorem isOver_afterClaims (scan : RecoverySummary) (recovered : Nat) :
    (afterClaims scan recovered).isOver = false := by
  unfold afterClaims
  split
  · rfl
  · exact isOver_afterAutoclaim scan recovered

theorem isOver_afterScan (scan : RecoverySummary) : (afterScan scan).isOver = false := by
  unfold afterScan
  split
  · rfl
  · exact isOver_afterClaims scan 0

theorem isOver_resume (next : Next) : next.resume.isOver = false := by
  cases next with
  | claim scan recovered full =>
    simp only [Next.resume]
    split
    · rfl
    · exact isOver_afterClaims scan recovered
  | autoclaim scan recovered startId nextStartId claimed =>
    simp only [Next.resume]
    split
    · exact isOver_afterAutoclaim scan recovered
    · split
      · exact isOver_afterAutoclaim scan recovered
      · rfl
  | finish => rfl

end Loop

/-- What a step does to the coroutines of its process. -/
inductive Moves (s : State) (p : Process) (e : WorkerEvent) : Process → Prop where
  | went (loop : Loop) (hl : p.loop.isOver = false) (hnew : loop.isOver = false) :
      Moves s p e (p.goTo loop)
  | exited (hl : p.loop = .stopping) : Moves s p e (p.goTo .exited)
  | stayed : Moves s p e p
  | proceeded (p' : Process) (h : p.proceed = some p') : Moves s p e p'
  | started (j : Nat) (c : Coroutine) (stage : Stage) (hc : p.coroutines[j]? = some c)
      (hold : Process.isExecuting c = false)
      (hnew : Process.isExecuting { c with stage := stage } = false) :
      Moves s p e (p.setStage j c stage)
  | refreshed (j : Nat) (c : Coroutine) (attempt : InvocationAttempt)
      (hc : p.coroutines[j]? = some c) (hold : Process.isExecuting c = false) :
      Moves s p e { p.setStage j c (.executing attempt) with runtime := p.runtime.markTaskStarted }
  | executed (j : Nat) (c : Coroutine) (attempt : InvocationAttempt)
      (result : RuntimeExecutionResult) (hc : p.coroutines[j]? = some c)
      (hold : Process.isExecuting c = true) :
      Moves s p e { p.setStage j c (.finishing attempt result) with
        runtime := p.runtime.markTaskFinished }
  | finished (j : Nat) (c : Coroutine) (hc : p.coroutines[j]? = some c)
      (hold : Process.isExecuting c = false) : Moves s p e (p.finished j)
  | failed (j : Nat) (c : Coroutine) (hc : p.coroutines[j]? = some c)
      (hold : Process.isExecuting c = false) (hr : raises s p e = true) :
      Moves s p e (p.failed j c)
  | iterationFailed (p' : Process) (h : p.failIteration = some p') : Moves s p e p'
  | interrupted (p' : Process) (h : p.interrupt = some p') : Moves s p e p'
  | stopped : Moves s p e p.stop

theorem workerStep_moves {s u : State} {p p' : Process} {e : WorkerEvent}
    (h : workerStep s p e = some (u, p')) : Moves s p e p' := by
  cases e with
  | heartbeat =>
    simp only [workerStep] at h
    split at h
    · cases h
    · obtain ⟨db, -, he⟩ := Option.map_eq_some_iff.mp h
      cases he
      exact .stayed
  | recoverStaleWorkers =>
    simp only [workerStep] at h
    split at h
    · rename_i hl
      split at h <;> cases h
      · exact .went _ (by rw [hl]; rfl) (Loop.isOver_afterScan _)
      · exact .went _ (by rw [hl]; rfl) rfl
    · cases h
  | proceed =>
    obtain ⟨p'', hp, he⟩ := Option.map_eq_some_iff.mp h
    cases he
    exact .proceeded p' hp
  | xpending =>
    simp only [workerStep] at h
    split at h
    · rename_i hl
      have hrun : p.loop.isOver = false := by rw [hl]; rfl
      split at h
      · cases h
      · split at h
        · cases h
          exact .went _ hrun rfl
        · cases h
          exact .went _ hrun rfl
    · cases h
  | xclaim =>
    simp only [workerStep] at h
    split at h
    · rename_i hl
      cases h
      exact .went _ (by rw [hl]; rfl) rfl
    · cases h
  | xautoclaim =>
    simp only [workerStep] at h
    split at h
    · rename_i hl
      split at h
      · cases h
      · cases h
        exact .went _ (by rw [hl]; rfl) rfl
    · cases h
  | markWorkersOffline =>
    simp only [workerStep] at h
    split at h
    · rename_i hl
      cases h
      exact .went _ (by rw [hl]; rfl) (Loop.isOver_afterRecovery _)
    · cases h
  | xreadgroup =>
    simp only [workerStep] at h
    split at h
    · rename_i hl
      cases h
      exact .went _ (by rw [hl]; rfl) rfl
    · cases h
  | markRunning j attemptId =>
    simp only [workerStep] at h
    split at h
    · rename_i task awaited hc
      simp only [Option.some.injEq] at h
      unfold startTask at h
      split at h
      · cases h
        exact .started j _ _ hc rfl rfl
      · rename_i db error hm
        cases ha : acknowledges error with
        | true =>
          rw [if_pos ha] at h
          cases h
          exact .started j _ _ hc rfl rfl
        | false =>
          rw [if_neg (by simp [ha])] at h
          cases h
          exact .failed j _ hc rfl (by simp [raises, hc, hm, ha])
    · cases h
  | refresh j =>
    simp only [workerStep] at h
    split at h
    · rename_i task attempt awaited hc
      cases h
      exact .refreshed j _ _ hc rfl
    · cases h
  | execute j result =>
    simp only [workerStep] at h
    split at h
    · rename_i task attempt awaited hc
      split at h
      · cases h
      · cases h
        exact .executed j _ _ _ hc rfl
    · cases h
  | markFinished j jitter dispatchId =>
    simp only [workerStep] at h
    split at h
    · rename_i task attempt result awaited hc
      simp only [Option.some.injEq] at h
      unfold finishTask at h
      dsimp only at h
      split at h
      · cases h
        exact .started j _ _ hc rfl rfl
      · rename_i db error hm
        cases h
        exact .failed j _ hc rfl (by simp [raises, hc, hm])
    · cases h
  | xack j =>
    simp only [workerStep] at h
    split at h
    · rename_i task awaited hc
      cases h
      exact .finished j _ hc rfl
    · cases h
  | failTask j =>
    simp only [workerStep] at h
    split at h
    · cases h
    · cases h
    · rename_i c hne hc
      cases h
      refine .failed j c hc ?_ rfl
      obtain ⟨task, stage, awaited⟩ := c
      cases stage with
      | executing attempt => exact absurd rfl (hne task attempt awaited)
      | ready | refreshing | finishing | acking => rfl
  | failIteration =>
    obtain ⟨p'', hp, he⟩ := Option.map_eq_some_iff.mp h
    cases he
    exact .iterationFailed p' hp
  | interrupt =>
    obtain ⟨p'', hp, he⟩ := Option.map_eq_some_iff.mp h
    cases he
    exact .interrupted p' hp
  | markOffline =>
    simp only [workerStep] at h
    split at h
    · rename_i hl
      obtain ⟨db, -, he⟩ := Option.map_eq_some_iff.mp h
      cases he
      exact .exited hl
    · cases h
  | stop =>
    cases h
    exact .stopped

/-- One step of a process that fails alone. -/
theorem Process.Bounded.moves {s : State} {p p' : Process} {e : WorkerEvent} (h : p.Bounded)
    (hm : Moves s p e p') (halone : raises s p e = true → p.coroutines.length ≤ 1) :
    p'.Bounded := by
  cases hm with
  | went loop => exact h.goTo loop
  | exited => exact h.goTo _
  | stayed => exact h
  | proceeded p' hp => exact h.proceed hp
  | started j c stage hc => exact h.setStage hc stage
  | refreshed j c attempt hc => exact ⟨(h.setStage hc _).awaited, (h.setStage hc _).length_le⟩
  | executed j c attempt result hc =>
    exact ⟨(h.setStage hc _).awaited, (h.setStage hc _).length_le⟩
  | finished j => exact h.finished j
  | failed j c hc hold hr => exact .failed hc (halone hr)
  | iterationFailed p' hp => exact h.failIteration hp
  | interrupted p' hp => exact h.interrupt hp
  | stopped => exact ⟨fun d hd => absurd hd List.not_mem_nil, Nat.zero_le _⟩

namespace Process

/-- The report of a running process is right, and a process that shuts down awaits nothing. -/
structure Counted (p : Process) : Prop where
  active : p.loop ≠ .exited → p.runtime.activeInvocations = p.coroutines.countP isExecuting
  quiet : p.loop.isOver = true → ∀ c ∈ p.coroutines, c.awaited = false

theorem countP_set {l : List Coroutine} {j : Nat} {c : Coroutine} (hc : l[j]? = some c)
    (d : Coroutine) : (l.set j d).countP isExecuting + (if isExecuting c then 1 else 0) =
      l.countP isExecuting + (if isExecuting d then 1 else 0) := by
  obtain ⟨hlt, rfl⟩ := List.getElem?_eq_some_iff.mp hc
  have hold := (List.getElem_cons_eraseIdx_perm hlt).countP_eq isExecuting
  have hnew := (List.set_perm_cons_eraseIdx hlt d).countP_eq isExecuting
  rw [List.countP_cons] at hold hnew
  omega

theorem countP_finished {p : Process} {j : Nat} {c : Coroutine} (hc : p.coroutines[j]? = some c)
    (hold : isExecuting c = false) :
    (p.finished j).coroutines.countP isExecuting = p.coroutines.countP isExecuting := by
  obtain ⟨hlt, rfl⟩ := List.getElem?_eq_some_iff.mp hc
  have hperm := (List.getElem_cons_eraseIdx_perm hlt).countP_eq isExecuting
  rw [List.countP_cons, hold] at hperm
  simpa [finished] using hperm

namespace Counted

variable {p : Process} {j : Nat} {c : Coroutine}

theorem setStage (h : p.Counted) (hc : p.coroutines[j]? = some c) (stage : Stage)
    {runtime : WorkerRuntimeState}
    (hr : p.loop ≠ .exited → p.runtime.activeInvocations = p.coroutines.countP isExecuting →
      runtime.activeInvocations = (p.setStage j c stage).coroutines.countP isExecuting) :
    Counted { p.setStage j c stage with runtime := runtime } := by
  constructor
  · exact fun hl => hr hl (h.active hl)
  · intro hl d hd
    rcases List.mem_or_eq_of_mem_set hd with hd | rfl
    · exact h.quiet hl d hd
    · exact h.quiet hl c (List.mem_of_getElem? hc)

theorem goTo (h : p.Counted) (loop : Loop) (hl : p.loop.isOver = false)
    (hnew : loop.isOver = false) : (p.goTo loop).Counted := by
  constructor
  · intro _
    apply h.active
    intro he
    rw [he] at hl
    cases hl
  · intro hover
    rw [show (p.goTo loop).loop = loop from rfl, hnew] at hover
    cases hover

theorem finished (h : p.Counted) (hc : p.coroutines[j]? = some c) (hold : isExecuting c = false) :
    (p.finished j).Counted := by
  constructor
  · intro hl
    rw [countP_finished hc hold]
    exact h.active hl
  · exact fun hl d hd => h.quiet hl d ((List.eraseIdx_sublist _ _).subset hd)

theorem failed (h : p.Counted) (hc : p.coroutines[j]? = some c) (hold : isExecuting c = false) :
    (p.failed j c).Counted := by
  unfold Process.failed
  split
  · rename_i haw
    constructor
    · intro _
      have hrun : p.loop ≠ .exited := by
        intro hl
        rw [h.quiet (by rw [hl]; rfl) c (List.mem_of_getElem? hc)] at haw
        cases haw
      have hmap : ∀ l : List Coroutine,
          (l.map fun c => { c with awaited := false }).countP isExecuting =
            l.countP isExecuting := by
        intro l
        rw [List.countP_map]
        rfl
      dsimp only
      rw [hmap]
      exact (h.active hrun).trans (countP_finished hc hold).symm
    · exact fun hl => by cases hl
  · exact h.finished hc hold

theorem proceed {p' : Process} (h : p.Counted) (hp : p.proceed = some p') : p'.Counted := by
  unfold Process.proceed at hp
  split at hp
  · rename_i scan recovered names tasks hl
    have hrun : p.loop.isOver = false := by rw [hl]; rfl
    split at hp
    · split at hp
      · cases hp
        exact h.goTo _ hrun (Loop.isOver_afterClaims scan recovered)
      · cases hp
        exact h.goTo _ hrun rfl
    · cases hp
  · rename_i rest next hl
    have hrun : p.loop.isOver = false := by rw [hl]; rfl
    split at hp
    · cases hp
    split at hp
    · cases hp
      exact h.goTo _ hrun rfl
    split at hp
    · cases hp
      exact h.goTo _ hrun (Loop.isOver_resume next)
    · cases hp
      constructor
      · intro _
        have hnew : ((rest.take p.config.maxConcurrency).map
            fun t => ({ task := t } : Coroutine)).countP isExecuting = 0 := by
          rw [List.countP_map, List.countP_eq_zero]
          intro t _ ht
          cases ht
        dsimp only
        rw [List.countP_append, hnew, Nat.add_zero]
        exact h.active (by rw [hl]; exact Loop.noConfusion)
      · exact fun hover => by cases hover
  · cases hp

theorem failIteration {p' : Process} (h : p.Counted) (hp : p.failIteration = some p') :
    p'.Counted := by
  unfold Process.failIteration at hp
  split at hp <;> cases hp <;> rename_i hl <;> exact h.goTo _ (by rw [hl]; rfl) rfl

/-- `mark_task_finished`, once for each of several tasks. -/
theorem iterate_markTaskFinished (n : Nat) (r : WorkerRuntimeState) :
    (WorkerRuntimeState.markTaskFinished^[n] r).activeInvocations = r.activeInvocations - n := by
  induction n generalizing r with
  | zero => rfl
  | succ n ih =>
    rw [Function.iterate_succ_apply, ih]
    simp only [WorkerRuntimeState.markTaskFinished]
    omega

theorem interrupt {p' : Process} (h : p.Counted) (hp : p.interrupt = some p') : p'.Counted := by
  unfold Process.interrupt at hp
  split at hp
  · cases hp
  · cases hp
  · rename_i hstop hexit
    cases hp
    constructor
    · intro _
      -- those that execute are the awaited ones, which are cancelled, and the others
      have hsplit : ∀ l : List Coroutine, l.countP isExecuting =
          (l.countP fun c => c.awaited && isExecuting c) +
            (l.filter fun c => !c.awaited).countP isExecuting := by
        intro l
        induction l with
        | nil => rfl
        | cons d l ih =>
          cases ha : d.awaited <;> cases hx : isExecuting d <;>
            simp [ha, hx, ih] <;> omega
      dsimp only
      rw [iterate_markTaskFinished, h.active hexit, hsplit p.coroutines]
      omega
    · intro _ d hd
      have ha := (List.mem_filter.mp hd).2
      simpa using ha

/-- One step. -/
theorem moves {s : State} {p' : Process} {e : WorkerEvent} (h : p.Counted)
    (hm : Moves s p e p') : p'.Counted := by
  cases hm with
  | went loop hl hnew => exact h.goTo loop hl hnew
  | exited hl => exact ⟨fun hne => absurd rfl hne, fun _ => h.quiet (by rw [hl]; rfl)⟩
  | stayed => exact h
  | proceeded p' hp => exact h.proceed hp
  | started j c stage hc hold hnew =>
    refine h.setStage hc stage fun _ heq => ?_
    have hcount := countP_set hc { c with stage := stage }
    rw [hold, hnew] at hcount
    simp only [Bool.false_eq_true, if_false, Nat.add_zero] at hcount
    exact heq.trans hcount.symm
  | refreshed j c attempt hc hold =>
    refine h.setStage hc _ fun _ heq => ?_
    have hcount := countP_set hc { c with stage := .executing attempt }
    rw [hold] at hcount
    have hone : (p.runtime.markTaskStarted).activeInvocations =
      p.runtime.activeInvocations + 1 := rfl
    have hnew : isExecuting { c with stage := .executing attempt } = true := rfl
    rw [hone, heq]
    rw [if_neg Bool.false_ne_true, if_pos hnew] at hcount
    exact hcount.symm
  | executed j c attempt result hc hold =>
    refine h.setStage hc _ fun _ heq => ?_
    have hcount := countP_set hc { c with stage := .finishing attempt result }
    rw [hold] at hcount
    have hone : (p.runtime.markTaskFinished).activeInvocations =
      p.runtime.activeInvocations - 1 := rfl
    have hnew : isExecuting { c with stage := .finishing attempt result } = false := rfl
    rw [hone, heq]
    rw [if_pos rfl, hnew, if_neg Bool.false_ne_true] at hcount
    change _ = (p.coroutines.set j { c with stage := .finishing attempt result }).countP isExecuting
    omega
  | finished j c hc hold => exact h.finished hc hold
  | failed j c hc hold => exact h.failed hc hold
  | iterationFailed p' hp => exact h.failIteration hp
  | interrupted p' hp => exact h.interrupt hp
  | stopped =>
    exact ⟨fun hne => absurd rfl hne, fun _ d hd => absurd hd List.not_mem_nil⟩

end Counted

end Process

/-- Every process of a state. -/
theorem processes_step {P : Process → Prop}
    (hnew : ∀ workerId consumerName config, P ⟨workerId, consumerName, config, {}, .start, []⟩)
    {s t : State} {e : Event} (h : ∀ p ∈ s.processes, P p) (hs : step s e = some t)
    (hmove : ∀ n e' p u p', e = .worker n e' → s.processes[n]? = some p →
      workerStep s p e' = some (u, p') → P p') : ∀ p ∈ t.processes, P p := by
  cases e with
  | worker n e' =>
    obtain ⟨p, hp, h'⟩ := Option.bind_eq_some_iff.mp hs
    obtain ⟨⟨u, p'⟩, hu, rfl⟩ := Option.map_eq_some_iff.mp h'
    have hproc : u.processes = s.processes := (workerStep_effect hu).ident.2
    intro q hq
    have hq' : q ∈ u.processes.set n p' := hq
    rw [hproc] at hq'
    rcases List.mem_or_eq_of_mem_set hq' with hq' | rfl
    · exact h q hq'
    · exact hmove n e' p u q rfl hp hu
  | tick | createInvocation | select | publish | commit | rollback =>
    have hproc : t.processes = s.processes := by
      cases step_effect hs
      rfl
    rw [hproc]
    exact h
  | register workerId hostname consumerName persisted config =>
    cases step_effect hs with
    | registered _ _ _ _ _ workers hn hw =>
      intro q hq
      rcases List.mem_append.mp hq with hq | hq
      · exact h q hq
      · rw [List.mem_singleton.mp hq]
        exact hnew workerId consumerName config

theorem bounded_reachable {s : State} (h : ReachableBy step FailsAlone init s) :
    ∀ p ∈ s.processes, p.Bounded := by
  refine ReachableBy.invariant (I := fun s => ∀ p ∈ s.processes, p.Bounded)
    (fun s hi p hp => ?_) (fun _ hb hok hs => ?_) h
  · obtain ⟨-, -, -, hproc, -⟩ := hi
    rw [hproc] at hp
    exact absurd hp List.not_mem_nil
  · refine processes_step
      (fun _ _ _ => ⟨fun c hc => absurd hc List.not_mem_nil, Nat.zero_le _⟩) hb hs ?_
    rintro n e p u p' rfl hp hw
    exact (hb p (List.mem_of_getElem? hp)).moves (workerStep_moves hw) (hok p hp)

theorem counted_reachable {s : State} (h : Reachable step init s) :
    ∀ p ∈ s.processes, p.Counted := by
  refine Reachable.invariant (I := fun s => ∀ p ∈ s.processes, p.Counted)
    (fun s hi p hp => ?_) (fun _ hb hs => ?_) h
  · obtain ⟨-, -, -, hproc, -⟩ := hi
    rw [hproc] at hp
    exact absurd hp List.not_mem_nil
  · refine processes_step
      (fun _ _ _ => ⟨fun _ => rfl, fun _ c hc => absurd hc List.not_mem_nil⟩) hb hs ?_
    rintro n e p u p' rfl hp hw
    exact (hb p (List.mem_of_getElem? hp)).moves (workerStep_moves hw)

/-- **Active work never exceeds the configured concurrency, as long as no exception leaves a
coroutine next to another one.** The number that the worker reports is the number of tasks that it
executes. -/
theorem concurrency_bounded {s : State} (h : ReachableBy step FailsAlone init s) {p : Process}
    (hp : p ∈ s.processes) :
    p.coroutines.countP Process.isActive ≤ p.config.maxConcurrency ∧
      (p.loop ≠ .exited →
        p.runtime.activeInvocations = p.coroutines.countP Process.isExecuting) :=
  ⟨List.countP_le_length.trans (bounded_reachable h p hp).length_le,
    (counted_reachable h.reachable p hp).active⟩

/-- One worker, four invocations that are published, and two of them in coroutines. -/
def fourInvocations : List Event :=
  [.register 10 "host" "a" true ⟨30, 3, 2, 10⟩] ++
    [30, 31, 32, 33].map (fun id => .createInvocation
      { ownerId := 7, functionName := "hello", payload := .null } (helloVersion 300) id (id + 10) 0) ++
    [.select 100, .publish 0 .returned, .publish 0 .returned, .publish 0 .returned,
      .publish 0 .returned, .commit 0] ++ readNew 0

/-- The condition, decided for one state and event. -/
def failsAlone (s : State) : Event → Bool
  | .worker n e => (s.processes[n]?).all fun p =>
    !raises s p e || decide (p.coroutines.length ≤ 1)
  | _ => true

theorem failsAlone_of_true {s : State} {e : Event} (h : failsAlone s e = true) : FailsAlone s e := by
  cases e with
  | worker n e =>
    intro p hp hr
    simp only [failsAlone, hp, Option.all_some, hr, Bool.not_true, Bool.false_or,
      decide_eq_true_eq] at h
    exact h
  | tick | createInvocation | select | publish | commit | rollback | register => trivial

/-- Both tasks of a batch are executed at the same time. -/
theorem concurrency_bounded_batch : ∃ s, ReachableBy step FailsAlone init s ∧ ∃ p ∈ s.processes,
    p.runtime.activeInvocations = 2 ∧ p.coroutines.countP Process.isActive ≤ 2 := by
  obtain ⟨s, hs, hp⟩ := reachableBy_of_replayWhere step
    (fourInvocations ++ [.worker 0 (.markRunning 0 20), .worker 0 (.refresh 0),
      .worker 0 (.markRunning 1 21), .worker 0 (.refresh 1)])
    (fun s => s.processes.any fun p => p.runtime.activeInvocations = 2 ∧
      p.config.maxConcurrency = 2)
    (fun s e (he : failsAlone s e = true) => show FailsAlone s e from failsAlone_of_true he)
    init_empty (by decide +kernel)
  obtain ⟨p, hpm, hpp⟩ := List.any_eq_true.mp hp
  obtain ⟨hactive, hmax⟩ := of_decide_eq_true hpp
  have hbound := (concurrency_bounded hs hpm).1
  rw [hmax] at hbound
  exact ⟨s, hs, p, hpm, hactive, hbound⟩

/-- **Three tasks are executed at a time where two are allowed**: one task of the first batch raises
while the other one is executed, and the next iteration starts two more. -/
theorem concurrency_exceeded : ∃ s, Reachable step init s ∧ ∃ p ∈ s.processes,
    p.config.maxConcurrency = 2 ∧ p.coroutines.countP Process.isExecuting = 3 := by
  obtain ⟨s, hs, hp⟩ := reachable_of_replay step
    (fourInvocations ++ [.worker 0 (.markRunning 0 20), .worker 0 (.refresh 0),
      .worker 0 (.failTask 1)] ++ readNew 0 ++
      [.worker 0 (.markRunning 1 21), .worker 0 (.refresh 1), .worker 0 (.markRunning 2 22),
        .worker 0 (.refresh 2)])
    (fun s => s.processes.any fun p => p.config.maxConcurrency = 2 ∧
      p.coroutines.countP Process.isExecuting = 3)
    init_empty (by decide +kernel)
  obtain ⟨p, hpm, hpp⟩ := List.any_eq_true.mp hp
  obtain ⟨hmax, hcount⟩ := of_decide_eq_true hpp
  exact ⟨s, hs, p, hpm, hmax, hcount⟩

end Serverless.Cluster
