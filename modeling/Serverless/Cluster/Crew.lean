import Serverless.Cluster.System

/-!
# Worker rows, consumers and stale scans

A process keeps its worker row and its consumer name for life, so the rows, the names and
the scans that a recovery still works on go together in every reachable state.
-/
namespace Serverless.Cluster

open Serverless.Library Serverless.Model

/-- Every consumer name of the scan belongs to a worker of the scan. -/
def ScanWf (crew : List (UUID × String)) (scan : RecoverySummary) : Prop :=
  ∀ name ∈ scan.staleConsumerNames, ∃ id ∈ scan.staleWorkerIds, (id, name) ∈ crew

/-- The consumers still to be asked are names of the scan, and so is the one whose entries are
listed. -/
def LoopWf (crew : List (UUID × String)) : Loop → Prop
  | .claiming scan _ names _ => ScanWf crew scan ∧ names ⊆ scan.staleConsumerNames
  | .listed scan _ names _ consumer ids =>
    ScanWf crew scan ∧ names ⊆ scan.staleConsumerNames ∧ consumer ∈ scan.staleConsumerNames ∧
      ids.Nodup
  | .autoclaiming scan _ _ | .offlining scan _ | .processing _ (.claim scan _ _)
  | .processing _ (.autoclaim scan _ _ _ _) => ScanWf crew scan
  | .start | .reading | .processing _ .finish | .stopping | .exited => True

namespace LoopWf

variable {crew : List (UUID × String)} {scan : RecoverySummary}

theorem afterRecovery (recovered : Nat) : LoopWf crew (.afterRecovery recovered) := by
  unfold Loop.afterRecovery
  split <;> trivial

theorem afterAutoclaim (h : ScanWf crew scan) (recovered : Nat) :
    LoopWf crew (.afterAutoclaim scan recovered) := by
  unfold Loop.afterAutoclaim
  split
  · exact h
  · exact afterRecovery recovered

theorem afterClaims (h : ScanWf crew scan) (recovered : Nat) :
    LoopWf crew (.afterClaims scan recovered) := by
  unfold Loop.afterClaims
  split
  · exact h
  · exact afterAutoclaim h recovered

theorem claimRound (h : ScanWf crew scan) (recovered : Nat) :
    LoopWf crew (.claimRound scan recovered) :=
  ⟨h, List.Subset.refl _⟩

theorem afterScan (h : ScanWf crew scan) : LoopWf crew (.afterScan scan) := by
  unfold Loop.afterScan
  split
  · exact claimRound h 0
  · exact afterClaims h 0

theorem resume {rest : List InvocationTask} {next : Next} (h : LoopWf crew (.processing rest next)) :
    LoopWf crew next.resume := by
  cases next with
  | claim scan recovered full =>
    simp only [Next.resume]
    split
    · exact claimRound h recovered
    · exact afterClaims h recovered
  | autoclaim scan recovered startId nextStartId claimed =>
    simp only [Next.resume]
    split
    · exact afterAutoclaim h recovered
    · split
      · exact afterAutoclaim h recovered
      · exact h
  | finish => trivial

theorem rest {rest rest' : List InvocationTask} {next : Next}
    (h : LoopWf crew (.processing rest next)) : LoopWf crew (.processing rest' next) := by
  cases next <;> exact h

theorem mono {crew' : List (UUID × String)} {loop : Loop} (h : LoopWf crew loop)
    (hc : crew ⊆ crew') : LoopWf crew' loop := by
  have hscan : ∀ {scan}, ScanWf crew scan → ScanWf crew' scan := by
    intro scan hs name hn
    obtain ⟨id, hid, hm⟩ := hs name hn
    exact ⟨id, hid, hc hm⟩
  cases loop with
  | claiming => exact ⟨hscan h.1, h.2⟩
  | listed => exact ⟨hscan h.1, h.2⟩
  | autoclaiming | offlining => exact hscan h
  | processing rest next =>
    cases next with
    | claim | autoclaim => exact hscan h
    | finish => trivial
  | start | reading | stopping | exited => trivial

theorem proceed {p p' : Process} (h : LoopWf crew p.loop) (hp : p.proceed = some p') :
    LoopWf crew p'.loop := by
  unfold Process.proceed at hp
  split at hp
  · rename_i scan recovered names tasks hl
    rw [hl] at h
    split at hp
    · split at hp
      · cases hp
        exact afterClaims h.1 recovered
      · cases hp
        exact h.1
    · cases hp
  · rename_i tasks next hl
    rw [hl] at h
    split at hp
    · cases hp
    split at hp
    · cases hp
      trivial
    split at hp
    · cases hp
      exact h.resume
    · cases hp
      exact h.rest
  · cases hp

theorem own {s : State} {p p' : Process} (h : LoopWf crew p.loop) (ho : Own s p p') :
    LoopWf crew p'.loop := by
  cases ho with
  | proceeded p' hp => exact h.proceed hp
  | skipped scan recovered name names tasks hl =>
    rw [hl] at h
    exact ⟨h.1, fun x hx => h.2 (List.mem_cons_of_mem _ hx)⟩
  | listed scan recovered name names tasks hl =>
    rw [hl] at h
    exact ⟨h.1, fun x hx => h.2 (List.mem_cons_of_mem _ hx), h.2 List.mem_cons_self,
      ConsumerGroup.pendingOf_nodup _ _ _ _ _⟩
  | refreshed | executed => exact h
  | failed j c hc =>
    unfold Process.failed
    split
    · trivial
    · exact h
  | iterationFailed p' hp =>
    unfold Process.failIteration at hp
    split at hp <;> cases hp <;> trivial
  | interrupted p' hp =>
    unfold Process.interrupt at hp
    split at hp <;> cases hp
    trivial
  | stopped => trivial

end LoopWf

/-- The runtime state never says `OFFLINE`. -/
theorem Own.runtime {s : State} {p p' : Process} (ho : Own s p p')
    (h : p.runtime.status ≠ .offline) : p'.runtime.status ≠ .offline := by
  have hfinish : ∀ r : WorkerRuntimeState, r.markTaskFinished.status ≠ .offline := by
    intro r
    simp only [WorkerRuntimeState.markTaskFinished]
    split <;> decide
  cases ho with
  | proceeded p' hp =>
    unfold Process.proceed at hp
    repeat' split at hp
    all_goals cases hp
    all_goals exact h
  | skipped | listed | stopped => exact h
  | refreshed => exact WorkerStatus.noConfusion
  | executed => exact hfinish p.runtime
  | failed j c =>
    unfold Process.failed
    split <;> exact h
  | iterationFailed p' hp =>
    unfold Process.failIteration at hp
    split at hp <;> cases hp <;> exact h
  | interrupted p' hp =>
    unfold Process.interrupt at hp
    split at hp <;> cases hp
    exact Function.Iterate.rec (fun r : WorkerRuntimeState => r.status ≠ .offline) h
      (fun r _ => hfinish r) _

/-- How a worker step leaves the worker rows. -/
inductive WorkersMove (s : State) (p : Process) (db : Database) : WorkerEvent → Prop where
  | same (e : WorkerEvent) (h : db.workers = s.db.workers) : WorkersMove s p db e
  | beat (h : recordHeartbeat s.db p.workerId p.runtime.activeInvocations p.runtime.status
      s.clock = some db) : WorkersMove s p db .heartbeat
  | offlined (scan : RecoverySummary) (recovered : Nat) (hl : p.loop = .offlining scan recovered)
      (h : db.workers = (markWorkersOffline s.db scan.staleWorkerIds).workers) :
      WorkersMove s p db .markWorkersOffline
  | shutDown (hl : p.loop = .stopping) (h : markOffline s.db p.workerId s.clock = some db) :
      WorkersMove s p db .markOffline

theorem WorkerEffect.workers {s u : State} {p p' : Process} {e : WorkerEvent}
    (h : WorkerEffect s p e u p') : WorkersMove s p u.db e := by
  cases h with
  | own | claimed | autoclaimed | read | acked => exact .same _ rfl
  | heartbeat db hdb => exact .beat hdb
  | scanned =>
    refine .same _ ?_
    rw [recoverStaleWorkers_db, commitRecovery_workers]
  | started j c attemptId db attempt hc hst hm => exact .same _ (markRunning_workers hm)
  | dismissed j c attemptId db error hc hst hm => exact .same _ (markRunning_workers hm)
  | notStarted j c attemptId db error hc hst hm => exact .same _ (markRunning_workers hm)
  | finished j c attempt result jitter dispatchId db row hc hst hm =>
    exact .same _ (markFinished_workers hm)
  | offlined scan recovered hl => exact .offlined scan recovered hl rfl
  | shutDown db hl hdb => exact .shutDown hl hdb

/-- Rows stay, with their consumer names. -/
theorem WorkersMove.kept {s : State} {p : Process} {db : Database} {e : WorkerEvent}
    (h : WorkersMove s p db e) :
    (∀ w ∈ s.db.workers, ∃ w' ∈ db.workers, w'.id = w.id) ∧
    ∀ w' ∈ db.workers, ∃ w ∈ s.db.workers, w.id = w'.id ∧ w.consumerName = w'.consumerName := by
  have hbeat : ∀ {active status}, recordHeartbeat s.db p.workerId active status s.clock = some db →
      (∀ w ∈ s.db.workers, ∃ w' ∈ db.workers, w'.id = w.id) ∧
      ∀ w' ∈ db.workers, ∃ w ∈ s.db.workers, w.id = w'.id ∧ w.consumerName = w'.consumerName := by
    intro active status hb
    refine ⟨fun w hw => ⟨_, (mem_recordHeartbeat hb).mpr ⟨w, hw, rfl⟩, ?_⟩, fun w' hw' => ?_⟩
    · split <;> rfl
    · obtain ⟨w, hw, rfl⟩ := (mem_recordHeartbeat hb).mp hw'
      refine ⟨w, hw, ?_⟩
      split <;> exact ⟨rfl, rfl⟩
  cases h with
  | same e he => exact ⟨fun w hw => ⟨w, he ▸ hw, rfl⟩, fun w hw => ⟨w, he ▸ hw, rfl, rfl⟩⟩
  | beat hb => exact hbeat hb
  | shutDown hl hb => exact hbeat hb
  | offlined scan recovered hl he =>
    rw [he]
    refine ⟨fun w hw => ?_, fun w' hw' => ?_⟩
    · refine ⟨_, mem_markWorkersOffline.mpr ⟨w, hw, rfl⟩, ?_⟩
      split <;> rfl
    · obtain ⟨w, hw, rfl⟩ := mem_markWorkersOffline.mp hw'
      refine ⟨w, hw, ?_⟩
      split <;> exact ⟨rfl, rfl⟩

structure CrewWf (s : State) : Prop where
  names : (s.crew.map (·.2)).Nodup
  rows : ∀ c ∈ s.crew, ∃ w ∈ s.db.workers, w.id = c.1
  consumer : ∀ w ∈ s.db.workers, ∀ name, w.consumerName = some name → (w.id, name) ∈ s.crew
  loops : ∀ p ∈ s.processes, LoopWf s.crew p.loop
  runtime : ∀ p ∈ s.processes, p.runtime.status ≠ .offline

namespace CrewWf

variable {s t : State}

theorem mem_crew {p : Process} (hp : p ∈ s.processes) : (p.workerId, p.consumerName) ∈ s.crew :=
  List.mem_map.mpr ⟨p, hp, rfl⟩

/-- A consumer name has one worker. -/
theorem worker_eq (h : CrewWf s) {id id' : UUID} {name : String} (hc : (id, name) ∈ s.crew)
    (hc' : (id', name) ∈ s.crew) : id = id' :=
  congrArg Prod.fst (List.inj_on_of_nodup_map h.names hc hc' rfl)

/-- The scan of a recovery goes with the crew. -/
theorem scanWf {staleAfterSeconds maxAttempts : Nat} {now : Time} {scan : RecoverySummary}
    (h : CrewWf s)
    (hscan : (recoverStaleWorkers s.db staleAfterSeconds maxAttempts now).2 = .ok scan) :
    ScanWf s.crew scan := by
  obtain ⟨-, rfl⟩ := recoverStaleWorkers_ok hscan
  intro name hname
  obtain ⟨w, hw, hn⟩ := List.mem_filterMap.mp hname
  have hrow := ((readRecovery_of s.db staleAfterSeconds [] now).stale w hw).1
  exact ⟨w.id, List.mem_map_of_mem hw, h.consumer w hrow name hn⟩

theorem worked {n : Nat} {p p' : Process} {e : WorkerEvent} {u : State} (h : CrewWf s)
    (hp : s.processes[n]? = some p) (hw : WorkerEffect s p e u p') :
    CrewWf (u.setProcess n p') := by
  have hmem : p ∈ s.processes := List.mem_of_getElem? hp
  have hcrew := crew_setProcess hp hw
  obtain ⟨hfwd, hbwd⟩ := hw.workers.kept
  have hproc : ∀ q ∈ (u.setProcess n p').processes, q ∈ s.processes ∨ q = p' := by
    intro q hq
    rw [State.setProcess, hw.ident.2] at hq
    exact List.mem_or_eq_of_mem_set hq
  have hloop : LoopWf s.crew p'.loop ∧ p'.runtime.status ≠ .offline := by
    have hl := h.loops p hmem
    have hr := h.runtime p hmem
    cases hw with
    | own e p' ho => exact ⟨hl.own ho, ho.runtime hr⟩
    | heartbeat | started | dismissed | finished | acked => exact ⟨hl, hr⟩
    | scanned scan hl hscan => exact ⟨.afterScan (h.scanWf hscan), hr⟩
    | claimed scan recovered names tasks consumer ids he =>
      rw [he] at hl
      exact ⟨⟨hl.1, hl.2.1⟩, hr⟩
    | autoclaimed scan recovered startId ids nextStartId claimed he =>
      rw [he] at hl
      exact ⟨hl, hr⟩
    | offlined => exact ⟨.afterRecovery _, hr⟩
    | read => exact ⟨trivial, hr⟩
    | notStarted j c attemptId db error hc =>
      have ho : Own s p (p.failed j c) := .failed j c hc
      exact ⟨hl.own ho, ho.runtime hr⟩
    | shutDown => exact ⟨trivial, hr⟩
  refine ⟨hcrew ▸ h.names, fun c hc => ?_, fun w' hw' name hn => ?_, fun q hq => ?_, fun q hq => ?_⟩
  · obtain ⟨w, hw, hid⟩ := h.rows c (hcrew ▸ hc)
    obtain ⟨w', hw', hid'⟩ := hfwd w hw
    exact ⟨w', hw', hid'.trans hid⟩
  · obtain ⟨w, hw, hid, hname⟩ := hbwd w' hw'
    rw [hcrew, ← hid]
    exact h.consumer w hw name (hname.trans hn)
  · rw [hcrew]
    rcases hproc q hq with hq | rfl
    · exact h.loops q hq
    · exact hloop.1
  · rcases hproc q hq with hq | rfl
    · exact h.runtime q hq
    · exact hloop.2

theorem registered (h : CrewWf s) {workerId : UUID} {hostname consumerName : String}
    {persisted : Bool} {config : WorkerConfig} {workers : Table Worker.id Worker.noIndex}
    (hn : consumerName ∉ s.processes.map (·.consumerName))
    (hi : s.db.workers.insert (newWorker workerId hostname config.maxConcurrency
      (if persisted then some consumerName else none) s.clock) = .ok workers) :
    CrewWf { s with
      db := { s.db with workers := workers }
      processes := s.processes ++ [⟨workerId, consumerName, config, {}, .start, []⟩] } := by
  set t : State := { s with
    db := { s.db with workers := workers }
    processes := s.processes ++ [⟨workerId, consumerName, config, {}, .start, []⟩] } with ht
  have hcrew : t.crew = s.crew ++ [(workerId, consumerName)] := by
    simp [State.crew, ht]
  refine ⟨?_, fun c hc => ?_, fun w hw name hname => ?_, fun q hq => ?_, fun q hq => ?_⟩
  · rw [hcrew, List.map_append, List.map_singleton, ← List.concat_eq_append]
    refine h.names.concat fun hm => hn ?_
    simpa [State.crew] using hm
  · rw [hcrew] at hc
    rcases List.mem_append.mp hc with hc | hc
    · obtain ⟨w, hw, hid⟩ := h.rows c hc
      exact ⟨w, (Table.mem_insert hi).mpr (Or.inl hw), hid⟩
    · rw [List.mem_singleton.mp hc]
      exact ⟨_, (Table.mem_insert hi).mpr (Or.inr rfl), rfl⟩
  · rw [hcrew]
    rcases (Table.mem_insert hi).mp hw with hw | rfl
    · exact List.mem_append_left _ (h.consumer w hw name hname)
    · refine List.mem_append_right _ (List.mem_singleton.mpr ?_)
      cases persisted with
      | true =>
        cases hname
        rfl
      | false => cases hname
  · rw [hcrew]
    rcases List.mem_append.mp hq with hq | hq
    · exact (h.loops q hq).mono (List.subset_append_left _ _)
    · rw [List.mem_singleton.mp hq]
      trivial
  · rcases List.mem_append.mp hq with hq | hq
    · exact h.runtime q hq
    · rw [List.mem_singleton.mp hq]
      exact WorkerStatus.noConfusion

theorem step {e : Event} (h : CrewWf s) (hs : step s e = some t) : CrewWf t := by
  cases step_effect hs with
  | ticked | selected | published | rolledBack =>
    exact ⟨h.names, h.rows, h.consumer, h.loops, h.runtime⟩
  | committed => exact ⟨h.names, h.rows, h.consumer, h.loops, h.runtime⟩
  | created request version invocationId dispatchId queuedAt db hq hc =>
    obtain ⟨_, _, -, -, rfl⟩ := insertInvocation_ok hc
    exact ⟨h.names, h.rows, h.consumer, h.loops, h.runtime⟩
  | registered workerId hostname consumerName persisted config workers hn hw =>
    exact h.registered hn hw
  | worked n p e u p' hp hw => exact h.worked hp hw

end CrewWf

theorem crew_reachable {s : State} (h : Reachable step init s) : CrewWf s := by
  refine h.invariant (fun s hs => ?_) fun _ hi hs => hi.step hs
  obtain ⟨⟨functions, versions, hdb⟩, -, -, hp, -, -⟩ := hs
  refine ⟨by simp [State.crew, hp], fun c hc => ?_, fun w hw => ?_, fun p hpm => ?_,
    fun p hpm => ?_⟩
  · simp [State.crew, hp] at hc
  · rw [hdb] at hw
    exact absurd hw (Table.not_mem_empty w)
  · simp [hp] at hpm
  · simp [hp] at hpm

/-- No two processes have the same worker row. -/
theorem workers_nodup {s : State} (h : Reachable step init s) : (s.crew.map (·.1)).Nodup := by
  refine Reachable.invariant (I := fun s => (s.crew.map (·.1)).Nodup) (fun s hs => ?_)
    (fun {s e t} hr hn hs => ?_) h
  · obtain ⟨-, -, -, hp, -, -⟩ := hs
    simp [State.crew, hp]
  · cases step_effect hs with
    | ticked | selected | published | committed | rolledBack | created => exact hn
    | registered workerId hostname consumerName persisted config workers hc hi =>
      have hcrew : State.crew { s with
          db := { s.db with workers := workers }
          processes := s.processes ++ [⟨workerId, consumerName, config, {}, .start, []⟩] } =
          s.crew ++ [(workerId, consumerName)] := by
        simp [State.crew]
      rw [hcrew, List.map_append, List.map_singleton, ← List.concat_eq_append]
      -- the row is new, and every process has its row already
      refine hn.concat fun hm => ?_
      obtain ⟨c, hcm, hid⟩ := List.mem_map.mp hm
      obtain ⟨w, hw, hwid⟩ := (crew_reachable hr).rows c hcm
      exact Table.get_eq_none.mp (Table.insert_fresh hi) w hw (hwid.trans hid)
    | worked n p e u p' hp hw =>
      rw [crew_setProcess hp hw]
      exact hn

theorem process_of_worker {s : State} (h : Reachable step init s) {m n : Nat} {p q : Process}
    (hp : s.processes[n]? = some p) (hq : s.processes[m]? = some q)
    (hid : q.workerId = p.workerId) : m = n := by
  have hn := workers_nodup h
  obtain ⟨hlt, -⟩ := List.getElem?_eq_some_iff.mp hq
  refine (List.getElem?_inj (by simpa [State.crew] using hlt) hn).mp ?_
  simp [State.crew, hp, hq, hid]

/-! ## How the scenarios begin -/

/-- Workers are registered, and one invocation is accepted and published. -/
def opening (workers : List (UUID × String)) : List Event :=
  workers.map (fun w => .register w.1 "host" w.2 true ⟨30, 3, 2, 10⟩) ++
    [.createInvocation { ownerId := 7, functionName := "hello", payload := .null } (helloVersion 300)
        3 4 0,
      .select 100, .publish 0 .returned, .commit 0]

/-- A worker finds nothing to recover, reads new entries and hands them to coroutines. -/
def readNew (n : Nat) : List Event :=
  [.worker n .recoverStaleWorkers, .worker n .xreadgroup, .worker n .proceed]

end Serverless.Cluster
