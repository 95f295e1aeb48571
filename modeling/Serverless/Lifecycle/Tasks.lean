import Serverless.Lifecycle.System

/-!
# A process and its tasks

The main task of a process is in `run_worker_loop`, in its `finally` block or over exactly when
the cluster says so of the loop of the process, and the two tasks only meet in the stop event
and at the await of the `finally` block.
-/
namespace Serverless.Lifecycle

open Serverless.Library Serverless.Model
open Serverless.Cluster (WorkerEvent Process MarkedOffline)

/-- The main task as the cluster sees it. -/
def Main.Agrees : Main → Cluster.Loop → Prop
  | .looping, loop => loop.isOver = false
  | .joining, loop | .marking, loop => loop = .stopping
  | .returned, loop | .heartbeatRaised, loop | .markRaised, loop | .killed, loop => loop = .exited

structure Tasks.Wf (t : Tasks) : Prop where
  unset : t.main = .looping → t.stopEvent = false
  set : t.main = .joining ∨ t.main = .marking → t.stopEvent = true
  early : t.stopEvent = false → t.heartbeat ≠ .returned
  joined : t.main = .marking ∨ t.main = .returned → t.heartbeat = .returned
  surfaced : t.main = .heartbeatRaised → t.heartbeat = .raised

namespace Tasks.Wf

variable {t t' : Tasks}

theorem beat (h : t.Wf) (heartbeat : Heartbeat) (hold : t.heartbeat.isOver = false)
    (hnew : t.stopEvent = false → heartbeat ≠ .returned) :
    Tasks.Wf { t with heartbeat := heartbeat } where
  unset := h.unset
  set := h.set
  early := hnew
  joined hj := by
    have hret := h.joined hj
    rw [hret] at hold
    cases hold
  surfaced hs := by
    have hraised := h.surfaced hs
    rw [hraised] at hold
    cases hold

theorem turn {e : TaskEvent} (h : t.Wf) (ht : Turn t e t') : t'.Wf := by
  cases ht with
  | called hm hh =>
    refine h.beat _ (by rw [hh]; rfl) fun hs => ?_
    rw [hs]
    exact Heartbeat.noConfusion
  | wrote outcome hm hh =>
    refine h.beat _ (by rw [hh]; rfl) fun _ => ?_
    split <;> exact Heartbeat.noConfusion
  | woke hm hh => exact h.beat _ (by rw [hh]; rfl) fun _ => Heartbeat.noConfusion
  | interrupted hm =>
    refine ⟨Main.noConfusion, fun _ => rfl, Bool.noConfusion, fun hj => ?_, Main.noConfusion⟩
    rcases hj with hj | hj <;> cases hj
  | joined hm hh =>
    exact ⟨Main.noConfusion, fun _ => h.set (.inl hm), h.early, fun _ => hh, Main.noConfusion⟩
  | surfaced hm hh =>
    refine ⟨Main.noConfusion, fun hj => ?_, h.early, fun hj => ?_, fun _ => hh⟩
    · rcases hj with hj | hj <;> cases hj
    · rcases hj with hj | hj <;> cases hj
  | marked outcome hm =>
    have hh := h.joined (.inl hm)
    refine ⟨fun hj => ?_, fun hj => ?_, h.early, fun _ => hh, fun hj => ?_⟩
    all_goals
      dsimp only at hj
      split at hj <;> simp at hj
  | killed hm =>
    refine ⟨Main.noConfusion, fun hj => ?_, h.early, fun hj => ?_, Main.noConfusion⟩
    · rcases hj with hj | hj <;> cases hj
    · rcases hj with hj | hj <;> cases hj

end Tasks.Wf

/-! ## Steps of the cluster -/

section Cluster

variable {s u : Cluster.State} {p p' : Process} {n : Nat}

/-- The worker goes on with its loop, or its loop does not move. -/
def LoopKept (p p' : Process) : Prop :=
  (p.loop.isOver = false ∧ p'.loop.isOver = false) ∨ p'.loop = p.loop

theorem Main.Agrees.kept {main : Main} (h : main.Agrees p.loop) (hk : LoopKept p p') :
    main.Agrees p'.loop := by
  rcases hk with ⟨hold, hnew⟩ | heq
  · cases main with
    | looping => exact hnew
    | joining | marking | returned | heartbeatRaised | markRaised | killed =>
      rw [show p.loop = _ from h] at hold
      cases hold
  · rw [heq]
    exact h

/-- A task raises into the loop only while the loop awaits it. -/
theorem loopKept_task {e : WorkerEvent} {j : Nat} (hq : p.Counted) (hj : e.coroutine = some j)
    (h : Cluster.workerStep s p e = some (u, p')) : LoopKept p p' := by
  cases hc : p.coroutines[j]? with
  | none =>
    cases e <;> cases hj <;> simp [Cluster.workerStep, hc] at h
  | some c =>
    cases Cluster.taskStep h hj hc with
    | moved | acked => exact .inr rfl
    | failed hg hr =>
      cases hl : p.loop.isOver with
      | true =>
        refine .inr ?_
        rw [Process.failed, hq.quiet hl c (List.mem_of_getElem? hc)]
        rfl
      | false =>
        refine .inl ⟨hl, ?_⟩
        unfold Process.failed
        split
        · rfl
        · exact hl

theorem loopKept_proceed (h : p.proceed = some p') : LoopKept p p' := by
  unfold Process.proceed at h
  split at h
  · rename_i scan recovered names tasks hl
    have hold : p.loop.isOver = false := by rw [hl]; rfl
    split at h
    · split at h <;> cases h
      · exact .inl ⟨hold, Cluster.Loop.isOver_afterClaims _ _⟩
      · exact .inl ⟨hold, rfl⟩
    · cases h
  · rename_i rest next hl
    have hold : p.loop.isOver = false := by rw [hl]; rfl
    split at h
    · cases h
    split at h
    · cases h
      exact .inl ⟨hold, rfl⟩
    split at h
    · cases h
      exact .inl ⟨hold, Cluster.Loop.isOver_resume _⟩
    · cases h
      exact .inl ⟨hold, rfl⟩
  · cases h

theorem loopKept {e : WorkerEvent} (hq : p.Counted) (he : ofTasks (.worker n e) = false)
    (h : Cluster.workerStep s p e = some (u, p')) : LoopKept p p' := by
  cases e with
  | heartbeat | interrupt | markOffline | stop => cases he
  | markRunning | refresh | execute | markFinished | xack | failTask =>
    exact loopKept_task hq rfl h
  | proceed =>
    obtain ⟨q, hp, he⟩ := Option.map_eq_some_iff.mp h
    cases he
    exact loopKept_proceed hp
  | failIteration =>
    obtain ⟨q, hp, he⟩ := Option.map_eq_some_iff.mp h
    cases he
    unfold Process.failIteration at hp
    split at hp <;> cases hp
    all_goals
      rename_i hl
      exact .inl ⟨by rw [hl]; rfl, rfl⟩
  | recoverStaleWorkers =>
    simp only [Cluster.workerStep] at h
    split at h
    · rename_i hl
      have hold : p.loop.isOver = false := by rw [hl]; rfl
      split at h <;> cases h
      · exact .inl ⟨hold, Cluster.Loop.isOver_afterScan _⟩
      · exact .inl ⟨hold, rfl⟩
    · cases h
  | xpending =>
    simp only [Cluster.workerStep] at h
    split at h
    · rename_i hl
      have hold : p.loop.isOver = false := by rw [hl]; rfl
      split at h
      · cases h
      · split at h <;> cases h <;> exact .inl ⟨hold, rfl⟩
    · cases h
  | xclaim =>
    simp only [Cluster.workerStep] at h
    split at h <;> cases h
    rename_i hl
    exact .inl ⟨by rw [hl]; rfl, rfl⟩
  | xautoclaim =>
    simp only [Cluster.workerStep] at h
    split at h
    · rename_i hl
      split at h <;> cases h
      exact .inl ⟨by rw [hl]; rfl, rfl⟩
    · cases h
  | markWorkersOffline =>
    simp only [Cluster.workerStep] at h
    split at h <;> cases h
    rename_i hl
    exact .inl ⟨by rw [hl]; rfl, Cluster.Loop.isOver_afterRecovery _⟩
  | xreadgroup =>
    simp only [Cluster.workerStep] at h
    split at h <;> cases h
    rename_i hl
    exact .inl ⟨by rw [hl]; rfl, rfl⟩

/-- What becomes of the processes in a step that the two tasks have no part in. -/
theorem processes_after {e : Cluster.Event} (hr : Reachable Cluster.step Cluster.init s)
    (he : ofTasks e = false) (hs : Cluster.step s e = some u) (hp : s.processes[n]? = some p) :
    ∃ p', u.processes[n]? = some p' ∧ p'.workerId = p.workerId ∧ LoopKept p p' := by
  rcases Cluster.process_step hp hs with hp' | ⟨e', v, p', rfl, hw, hp'⟩
  · exact ⟨p, hp', rfl, .inr rfl⟩
  · have hid := (Cluster.workerStep_effect hw).ident.1
    exact ⟨p', hp', congrArg Prod.fst hid,
      loopKept (Cluster.counted_reachable hr p (List.mem_of_getElem? hp)) he hw⟩

theorem processes_created {e : Cluster.Event} (hs : Cluster.step s e = some u) :
    u.processes.length = s.processes.length + (created e).length ∧
      ∀ p, u.processes[s.processes.length]? = some p → created e = [{}] ∧ p.loop = .start := by
  have hnone : ∀ {c : Cluster.State} {q : Process}, c.processes.length = s.processes.length →
      c.processes[s.processes.length]? ≠ some q := by
    intro c q hc hq
    rw [List.getElem?_eq_none (Nat.le_of_eq hc)] at hq
    cases hq
  cases Cluster.step_effect hs with
  | ticked | selected | published | committed | rolledBack | created =>
    exact ⟨rfl, fun p hp => absurd hp (hnone rfl)⟩
  | registered workerId hostname consumerName persisted config workers hn hi =>
    refine ⟨List.length_append, fun p hp => ⟨rfl, ?_⟩⟩
    rw [List.getElem?_concat_length] at hp
    cases hp
    rfl
  | worked m q e v q' hq hw =>
    have hlen : (v.setProcess m q').processes.length = s.processes.length := by
      rw [Cluster.State.setProcess, List.length_set, hw.ident.2]
    exact ⟨hlen, fun p hp => absurd hp (hnone hlen)⟩

/-- A row that says `OFFLINE` does so until its own worker sends a heartbeat. -/
theorem marked_kept {e : Cluster.Event} (hr : Reachable Cluster.step Cluster.init s)
    (hs : Cluster.step s e = some u) (hp : s.processes[n]? = some p)
    (he : e ≠ .worker n .heartbeat) (h : MarkedOffline s p) : MarkedOffline u p := by
  obtain ⟨w, hw, hid, hoff⟩ := h
  cases Cluster.step_effect hs with
  | ticked | selected | published | committed | rolledBack => exact ⟨w, hw, hid, hoff⟩
  | created request version invocationId dispatchId queuedAt db hq hc =>
    obtain ⟨_, _, -, -, rfl⟩ := insertInvocation_ok hc
    exact ⟨w, hw, hid, hoff⟩
  | registered workerId hostname consumerName persisted config workers hn hi =>
    exact ⟨w, (Table.mem_insert hi).mpr (.inl hw), hid, hoff⟩
  | worked m q e v q' hq hwork =>
    show ∃ w ∈ v.db.workers.rows, w.id = p.workerId ∧ w.status = .offline
    cases hwork.workers with
    | same e heq => exact ⟨w, heq ▸ hw, hid, hoff⟩
    | beat hb =>
      -- the heartbeat is another worker's
      have hne : w.id ≠ q.workerId := by
        intro hwq
        have hmn := Cluster.process_of_worker hr hp hq (hwq.symm.trans hid)
        exact he (by rw [hmn])
      exact ⟨_, (mem_recordHeartbeat hb).mpr ⟨w, hw, if_neg hne⟩, hid, hoff⟩
    | offlined scan recovered hl heq =>
      refine ⟨_, heq ▸ mem_markWorkersOffline.mpr ⟨w, hw, rfl⟩, ?_⟩
      split
      · exact ⟨hid, rfl⟩
      · exact ⟨hid, hoff⟩
    | shutDown hl hb =>
      refine ⟨_, (mem_recordHeartbeat hb).mpr ⟨w, hw, rfl⟩, ?_⟩
      split
      · exact ⟨hid, rfl⟩
      · exact ⟨hid, hoff⟩

/-- A process finds its row. -/
theorem row_found (hr : Reachable Cluster.step Cluster.init s) (hp : s.processes[n]? = some p)
    (activeInvocations : Nat) (status : WorkerStatus) :
    ∃ db, recordHeartbeat s.db p.workerId activeInvocations status s.clock = some db := by
  obtain ⟨w, hw, hid⟩ := (Cluster.crew_reachable hr).rows _
    (Cluster.CrewWf.mem_crew (List.mem_of_getElem? hp))
  have hget : s.db.workers.get p.workerId = some w := by
    rw [← show w.id = p.workerId from hid]
    exact Table.get_of_mem hw
  exact ⟨_, by rw [recordHeartbeat, hget, Option.map_some]⟩

theorem heartbeat_enabled (hr : Reachable Cluster.step Cluster.init s)
    (hp : s.processes[n]? = some p) (hl : p.loop ≠ .exited) :
    ∃ u, Cluster.step s (.worker n .heartbeat) = some u := by
  obtain ⟨db, hdb⟩ := row_found hr hp p.runtime.activeInvocations p.runtime.status
  have hw : Cluster.workerStep s p .heartbeat = some ({ s with db := db }, p) := by
    simp only [Cluster.workerStep]
    rw [hdb, Option.map_some]
  exact ⟨_, Cluster.step_worker hp hw⟩

theorem markOffline_enabled (hr : Reachable Cluster.step Cluster.init s)
    (hp : s.processes[n]? = some p) (hl : p.loop = .stopping) :
    ∃ u, Cluster.step s (.worker n .markOffline) = some u := by
  obtain ⟨db, hdb⟩ := row_found hr hp 0 .offline
  have hw : Cluster.workerStep s p .markOffline = some ({ s with db := db }, p.goTo .exited) := by
    simp only [Cluster.workerStep, hl, markOffline, hdb, Option.map_some]
  exact ⟨_, Cluster.step_worker hp hw⟩

theorem marked_offline (hr : Reachable Cluster.step Cluster.init s)
    (hs : Cluster.step s (.worker n .markOffline) = some u) (hp : u.processes[n]? = some p) :
    MarkedOffline u p := by
  obtain ⟨q, hq, h⟩ := Option.bind_eq_some_iff.mp hs
  obtain ⟨⟨v, q'⟩, hv, rfl⟩ := Option.map_eq_some_iff.mp h
  obtain ⟨w, hw, hid⟩ := (Cluster.crew_reachable hr).rows _
    (Cluster.CrewWf.mem_crew (List.mem_of_getElem? hq))
  simp only [Cluster.workerStep] at hv
  split at hv
  · obtain ⟨db, hdb, he⟩ := Option.map_eq_some_iff.mp hv
    cases he
    obtain ⟨hlt, -⟩ := List.getElem?_eq_some_iff.mp hq
    have hpq : p = q.goTo .exited :=
      Option.some.inj (hp.symm.trans (List.getElem?_set_self hlt))
    rw [hpq]
    exact ⟨_, (mem_recordHeartbeat hdb).mpr ⟨w, hw, if_pos hid⟩, hid, rfl⟩
  · cases hv

end Cluster

/-! ## The invariant -/

/-- The processes of the cluster and their tasks belong together. -/
structure InStep (s : State) : Prop where
  length : s.tasks.length = s.cluster.processes.length
  agree : ∀ (n : Nat) (p : Process) (t : Tasks), s.cluster.processes[n]? = some p →
    s.tasks[n]? = some t → t.main.Agrees p.loop ∧ t.Wf

/-- What a command of the two tasks does to the loop of the process. -/
theorem Main.Agrees.command {s u : Cluster.State} {p p' : Process} {t t' : Tasks} {e : TaskEvent}
    {w : WorkerEvent} (h : t.main.Agrees p.loop) (ht : Turn t e t') (hc : t.command e = some w)
    (hw : Cluster.workerStep s p w = some (u, p')) : t'.main.Agrees p'.loop := by
  have hbeat : w = .heartbeat → p' = p := by
    rintro rfl
    simp only [Cluster.workerStep] at hw
    split at hw
    · cases hw
    · obtain ⟨db, -, he⟩ := Option.map_eq_some_iff.mp hw
      cases he
      rfl
  have hoffline : w = .markOffline ∨ w = .stop → p'.loop = .exited := by
    rintro (rfl | rfl)
    · simp only [Cluster.workerStep] at hw
      split at hw
      · obtain ⟨db, -, he⟩ := Option.map_eq_some_iff.mp hw
        cases he
        rfl
      · cases hw
    · cases hw
      rfl
  cases ht with
  | called | woke => cases hc
  | wrote outcome hm hh =>
    cases outcome with
    | raised => cases hc
    | written | raisedAfterCommit =>
      cases hc
      rw [hbeat rfl]
      exact h
  | interrupted hm =>
    cases hc
    obtain ⟨q, hp, he⟩ := Option.map_eq_some_iff.mp hw
    cases he
    unfold Process.interrupt at hp
    split at hp <;> cases hp
    rfl
  | joined hm hh =>
    rw [Tasks.command, hh] at hc
    cases hc
  | surfaced hm hh =>
    rw [Tasks.command, if_pos hh] at hc
    cases hc
    exact hoffline (.inr rfl)
  | marked outcome hm =>
    cases outcome <;> cases hc
    · exact hoffline (.inl rfl)
    · exact hoffline (.inr rfl)
    · exact hoffline (.inl rfl)
  | killed hm =>
    cases hc
    exact hoffline (.inr rfl)

/-- Without a command the main task stays in `run_worker_loop`, or in its `finally` block. -/
theorem Main.Agrees.alone {loop : Cluster.Loop} {t t' : Tasks} {e : TaskEvent}
    (h : t.main.Agrees loop) (ht : Turn t e t') (hc : t.command e = none) :
    t'.main.Agrees loop := by
  cases ht with
  | called | woke | wrote => exact h
  | joined hm hh =>
    rw [hm] at h
    exact h
  | surfaced hm hh =>
    rw [Tasks.command, if_pos hh] at hc
    cases hc
  | marked outcome hm => cases outcome <;> cases hc
  | interrupted | killed => cases hc

/-- The tasks of process `m` when those of process `n` have moved. -/
theorem getElem?_set_cases {l : List Tasks} {m n : Nat} {t' x : Tasks}
    (h : (l.set n t')[m]? = some x) : (n = m ∧ x = t') ∨ (n ≠ m ∧ l[m]? = some x) := by
  by_cases hnm : n = m
  · subst hnm
    rw [List.getElem?_set] at h
    split at h
    · split at h <;> cases h
      exact .inl ⟨rfl, rfl⟩
    · contradiction
  · rw [List.getElem?_set_ne hnm] at h
    exact .inr ⟨hnm, h⟩

/-- A process after a step of the cluster is an old one with its tasks, or the new one. -/
theorem after_cluster {s : State} {e : Cluster.Event} {c : Cluster.State} (hi : InStep s)
    (hr : Reachable Cluster.step Cluster.init s.cluster) (he : ofTasks e = false)
    (hs : Cluster.step s.cluster e = some c) {n : Nat} {p' : Process} {t : Tasks}
    (hp : c.processes[n]? = some p') (ht : (s.tasks ++ created e)[n]? = some t) :
    (∃ p, s.cluster.processes[n]? = some p ∧ s.tasks[n]? = some t ∧ p'.workerId = p.workerId ∧
      LoopKept p p') ∨ (t = {} ∧ p'.loop = .start) := by
  obtain ⟨hlen, hnew⟩ := processes_created hs
  by_cases hlt : n < s.cluster.processes.length
  · obtain ⟨q', hq', hid, hk⟩ := processes_after hr he hs (List.getElem?_eq_getElem hlt)
    obtain rfl := Option.some.inj (hp.symm.trans hq')
    rw [List.getElem?_append_left (hi.length ▸ hlt)] at ht
    exact .inl ⟨_, List.getElem?_eq_getElem hlt, ht, hid, hk⟩
  · obtain ⟨hn, -⟩ := List.getElem?_eq_some_iff.mp hp
    have hone : (created e).length ≤ 1 := by cases e <;> simp [created]
    obtain rfl : n = s.cluster.processes.length := by omega
    obtain ⟨hcreated, hstart⟩ := hnew p' hp
    rw [hcreated, ← hi.length, List.getElem?_concat_length] at ht
    cases ht
    exact .inr ⟨rfl, hstart⟩

theorem InStep.step {s t : State} {e : Event} (h : InStep s)
    (hr : Reachable Cluster.step Cluster.init s.cluster) (hs : step s e = some t) : InStep t := by
  cases step_effect hs with
  | cluster e c he hc =>
    refine ⟨?_, fun n p t hp ht => ?_⟩
    · rw [List.length_append, h.length, (processes_created hc).1]
    · rcases after_cluster h hr he hc hp ht with ⟨q, hq, htq, -, hk⟩ | ⟨rfl, hstart⟩
      · obtain ⟨hagree, hwf⟩ := h.agree n q t hq htq
        exact ⟨hagree.kept hk, hwf⟩
      · refine ⟨?_, fun _ => rfl, fun hm => ?_, fun _ => Heartbeat.noConfusion, fun hm => ?_,
          Main.noConfusion⟩
        · show p.loop.isOver = false
          rw [hstart]
          rfl
        · rcases hm with hm | hm <;> cases hm
        · rcases hm with hm | hm <;> cases hm
  | alone n e t t' ht hn hc =>
    refine ⟨(List.length_set ..).trans h.length, fun m p x hp hx => ?_⟩
    rcases getElem?_set_cases hx with ⟨rfl, rfl⟩ | ⟨-, hx⟩
    · obtain ⟨hagree, hwf⟩ := h.agree n p t hp ht
      exact ⟨hagree.alone hn hc, hwf.turn hn⟩
    · exact h.agree m p x hp hx
  | sent n e t t' w c ht hn hc hw =>
    have hlen : c.processes.length = s.cluster.processes.length := (processes_created hw).1
    refine ⟨(List.length_set ..).trans (h.length.trans hlen.symm), fun m p x hp hx => ?_⟩
    rcases getElem?_set_cases hx with ⟨rfl, rfl⟩ | ⟨hnm, hx⟩
    · obtain ⟨q, hq, -⟩ := Option.bind_eq_some_iff.mp hw
      obtain ⟨u, q', hu, -, hq'⟩ := Cluster.worker_step hq hw
      obtain rfl := Option.some.inj (hp.symm.trans hq')
      obtain ⟨hagree, hwf⟩ := h.agree n q t hq ht
      exact ⟨hagree.command hn hc hu, hwf.turn hn⟩
    · rw [Cluster.other_process hw hnm] at hp
      exact h.agree m p x hp hx

theorem inStep_reachable {s : State} (h : Reachable step init s) : InStep s := by
  refine Reachable.invariant (fun s hs => ?_) (fun hr hi hs => hi.step (cluster_reachable hr) hs) h
  obtain ⟨⟨-, -, -, hp, -⟩, ht⟩ := hs
  refine ⟨by rw [ht, hp]; rfl, fun n p t hpn => ?_⟩
  rw [hp] at hpn
  cases hpn

/-- The agreement of a process with its tasks, from the side of the tasks. -/
theorem process_of_tasks {s : State} {n : Nat} {t : Tasks} (hr : Reachable step init s)
    (ht : s.tasks[n]? = some t) :
    ∃ p, s.cluster.processes[n]? = some p ∧ t.main.Agrees p.loop ∧ t.Wf := by
  have hi := inStep_reachable hr
  obtain ⟨hlt, -⟩ := List.getElem?_eq_some_iff.mp ht
  have hp := List.getElem?_eq_getElem (hi.length ▸ hlt)
  exact ⟨_, hp, hi.agree n _ t hp ht⟩

end Serverless.Lifecycle
