import Serverless.Cluster.Crew
import Serverless.Cluster.Rows

/-!
# What an offline worker owns

`OFFLINE` is written by `mark_workers_offline` at the end of a recovery and by
`mark_offline` when a worker stops, and neither looks at what the worker still holds.
Work it holds then stays where it is: the stale scan passes over offline rows. In runs
where a row is marked only when its worker holds nothing, and where a worker that has
been marked takes nothing before its next heartbeat, an offline worker owns nothing.
-/
namespace Serverless.Cluster

open Serverless.Library Serverless.Model

/-- The entry belongs to an invocation that is not terminal. -/
def Unfinished (s : State) (id : StreamId) : Prop :=
  ∃ e ∈ s.group.entry id, ∃ i ∈ s.db.invocations.rows,
    i.id = e.fields.invocationId ∧ ¬ i.status.isTerminal

/-- No attempt of the worker is `RUNNING`, and its consumer has no entry pending that belongs to
an unfinished invocation. -/
def Idle (s : State) (workerId : UUID) : Prop :=
  (∀ a ∈ s.db.attempts.rows, a.workerId = some workerId → a.status ≠ .running) ∧
  ∀ q ∈ s.group.pending, (workerId, q.consumer) ∈ s.crew → ¬ Unfinished s q.id

/-- No offline worker owns unfinished work. -/
def OwnsNothing (s : State) : Prop :=
  ∀ w ∈ s.db.workers, w.status = .offline → Idle s w.id

/-- The stale scan of a recovery that is about to mark its workers. -/
def Loop.marking : Loop → Option RecoverySummary
  | .offlining scan _ => some scan
  | _ => none

/-- The process's row says `OFFLINE`. -/
def MarkedOffline (s : State) (p : Process) : Prop :=
  ∃ w ∈ s.db.workers.rows, w.id = p.workerId ∧ w.status = .offline

/-- A row is marked only if its worker is idle, and a worker whose row is marked takes no entry
and starts no attempt. -/
def SafeOffline (s : State) : Event → Prop
  | .worker n .markWorkersOffline => ∀ p ∈ s.processes[n]?, ∀ scan ∈ p.loop.marking,
      ∀ w ∈ s.db.workers.rows, w.id ∈ scan.staleWorkerIds → Idle s w.id
  | .worker n .markOffline => ∀ p ∈ s.processes[n]?, Idle s p.workerId
  | .worker n .xclaim | .worker n .xautoclaim | .worker n .xreadgroup
  | .worker n (.markRunning _ _) => ∀ p ∈ s.processes[n]?, ¬ MarkedOffline s p
  | _ => True

instance (s : State) (id : StreamId) : Decidable (Unfinished s id) :=
  inferInstanceAs (Decidable (∃ e ∈ s.group.entry id, ∃ i ∈ s.db.invocations.rows,
    i.id = e.fields.invocationId ∧ ¬ i.status.isTerminal))

instance (s : State) (workerId : UUID) : Decidable (Idle s workerId) :=
  inferInstanceAs (Decidable (_ ∧ _))

instance (s : State) (p : Process) : Decidable (MarkedOffline s p) :=
  inferInstanceAs (Decidable (∃ w ∈ s.db.workers.rows, _))

instance (s : State) (e : Event) : Decidable (SafeOffline s e) :=
  match e with
  | .worker n .markWorkersOffline => inferInstanceAs (Decidable (∀ p ∈ s.processes[n]?,
      ∀ scan ∈ p.loop.marking, ∀ w ∈ s.db.workers.rows, w.id ∈ scan.staleWorkerIds → Idle s w.id))
  | .worker n .markOffline =>
    inferInstanceAs (Decidable (∀ p ∈ s.processes[n]?, Idle s p.workerId))
  | .worker n .xclaim | .worker n .xautoclaim | .worker n .xreadgroup
  | .worker n (.markRunning _ _) =>
    inferInstanceAs (Decidable (∀ p ∈ s.processes[n]?, ¬ MarkedOffline s p))
  | .worker _ .heartbeat | .worker _ .recoverStaleWorkers | .worker _ .proceed
  | .worker _ .xpending | .worker _ (.refresh _) | .worker _ (.execute _ _)
  | .worker _ (.markFinished _ _ _) | .worker _ (.xack _) | .worker _ (.failTask _)
  | .worker _ .failIteration | .worker _ .interrupt | .worker _ .stop | .tick _
  | .createInvocation .. | .select _ | .publish _ _ | .commit _ | .rollback _
  | .register .. => inferInstanceAs (Decidable True)

/-! ## Steps -/

/-- No step of the cluster touches a terminal invocation. -/
theorem step_terminalKept {s t : State} {e : Event} (hs : step s e = some t) :
    TerminalKept s.db t.db := by
  cases step_effect hs with
  | ticked | selected | published | committed | rolledBack | registered => exact .of_eq rfl
  | created request version invocationId dispatchId queuedAt db hq hc => exact .inserted hc
  | worked n p e u p' hp hw =>
    show TerminalKept s.db u.db
    cases hw with
    | own | claimed | autoclaimed | offlined | read | acked => exact .of_eq rfl
    | heartbeat db hdb =>
      obtain ⟨workers, rfl⟩ := recordHeartbeat_some hdb
      exact .of_eq rfl
    | scanned =>
      rw [recoverStaleWorkers_db]
      exact .recovered (readRecovery_of _ _ _ _) _
    | started j c attemptId db attempt hc hst hm => exact .markRunning hm
    | dismissed j c attemptId db error hc hst hm => exact .markRunning hm
    | notStarted j c attemptId db error hc hst hm => exact .markRunning hm
    | finished j c attempt result jitter dispatchId db row hc hst hm =>
      exact .markFinished hm
    | shutDown db hl hdb =>
      obtain ⟨workers, rfl⟩ := recordHeartbeat_some hdb
      exact .of_eq rfl

/-- Old entries stay as they are, and what is delivered after the step was there before. -/
theorem step_entry {s t : State} {e : Event} (hs : step s e = some t) :
    (∀ id ≤ s.group.entries.length, t.group.entry id = s.group.entry id) ∧
      t.group.delivered ≤ s.group.entries.length := by
  cases step_effect hs with
  | ticked | selected | committed | rolledBack | registered | created =>
    exact ⟨fun _ _ => rfl, s.group.delivered_le⟩
  | published b d todo done outcome hb =>
    show (∀ id ≤ s.group.entries.length, (addMessage s.group _ s.clock).entry id = _) ∧
      (addMessage s.group _ s.clock).delivered ≤ _
    generalize (publishDispatch s.db d outcome (s.group.entries.length + 1) s.clock).2 = m
    cases m with
    | none => exact ⟨fun _ _ => rfl, s.group.delivered_le⟩
    | some m =>
      refine ⟨fun id hid => ?_, s.group.delivered_le⟩
      show (s.group.add m s.clock).entry id = _
      rw [ConsumerGroup.entry_add, if_neg (by omega)]
  | worked n p e u p' hp hw =>
    have he : u.group.entries = s.group.entries := hw.outboxFrame.entries
    exact ⟨fun id _ => entry_congr he id, he ▸ u.group.delivered_le⟩

/-- No step makes a finished invocation unfinished. -/
theorem unfinished_of_step {s t : State} {e : Event} (h : Reachable step init s)
    (hs : step s e = some t) {q : Pending String} (hq : q ∈ t.group.pending)
    (hu : Unfinished t q.id) : Unfinished s q.id := by
  obtain ⟨hentry, hdel⟩ := step_entry hs
  obtain ⟨x, hx, i', hi', hid, hnt⟩ := hu
  rw [hentry q.id ((t.group.pending_le q hq).2.trans hdel)] at hx
  obtain ⟨i, hi, hid'⟩ := entry_owner h x (ConsumerGroup.entry_eq_some hx).2.2
  refine ⟨x, hx, i, hi, hid', fun ht => hnt ?_⟩
  have hkept := step_terminalKept hs i hi ht
  exact Table.eq_of_key hkept hi' (hid'.trans hid.symm) ▸ ht

namespace Idle

variable {s t : State} {workerId : UUID}

theorem frame (h : Idle s workerId)
    (ha : ∀ a' ∈ t.db.attempts, a'.workerId = some workerId → a'.status = .running →
      ∃ a ∈ s.db.attempts, a.workerId = a'.workerId ∧ a.status = .running)
    (hq : ∀ q' ∈ t.group.pending, (workerId, q'.consumer) ∈ t.crew →
      ∃ q ∈ s.group.pending, q.id = q'.id ∧ (workerId, q.consumer) ∈ s.crew)
    (hu : ∀ q' ∈ t.group.pending, Unfinished t q'.id → Unfinished s q'.id) : Idle t workerId := by
  refine ⟨fun a' ha' hw hrun => ?_, fun q' hq' hc hun => ?_⟩
  · obtain ⟨a, ham, haw, har⟩ := ha a' ha' hw hrun
    exact h.1 a ham (haw.trans hw) har
  · obtain ⟨q, hqm, hid, hqc⟩ := hq q' hq' hc
    exact h.2 q hqm hqc (hid ▸ hu q' hq' hun)

end Idle

/-- Events with which a worker takes an entry or starts an attempt. -/
def WorkerEvent.takes : WorkerEvent → Bool
  | .xclaim | .xautoclaim | .xreadgroup | .markRunning _ _ => true
  | _ => false

theorem SafeOffline.not_marked {s : State} {n : Nat} {p : Process} {e : WorkerEvent}
    (h : SafeOffline s (.worker n e)) (hp : s.processes[n]? = some p) (he : e.takes = true) :
    ¬ MarkedOffline s p := by
  cases e with
  | xclaim | xautoclaim | xreadgroup | markRunning => exact h p hp
  | _ => cases he

/-- After a worker step a pending entry has its old holder, or the worker has taken it. -/
theorem WorkerEffect.holder {s u : State} {p p' : Process} {e : WorkerEvent}
    (h : WorkerEffect s p e u p') {q' : Pending String} (hq : q' ∈ u.group.pending) :
    q' ∈ s.group.pending ∨ e.takes = true ∧ q'.consumer = p.consumerName := by
  have hclaim : ∀ {minIdle ids}, q' ∈ (s.group.claim p.consumerName minIdle ids s.clock).pending →
      q' ∈ s.group.pending ∨ q'.consumer = p.consumerName := by
    intro minIdle ids hm
    obtain ⟨q, hold, rfl⟩ := List.mem_map.mp hm
    unfold ConsumerGroup.reassign
    split
    · exact Or.inr rfl
    · exact Or.inl hold
  cases h with
  | own | heartbeat | scanned | offlined | started | dismissed | notStarted | finished
  | shutDown => exact Or.inl hq
  | claimed => exact (hclaim hq).imp_right fun hc => ⟨rfl, hc⟩
  | autoclaimed => exact (hclaim hq).imp_right fun hc => ⟨rfl, hc⟩
  | read =>
    rcases List.mem_append.mp hq with hq | hq
    · exact Or.inl hq
    · obtain ⟨id, -, rfl⟩ := List.mem_map.mp hq
      exact Or.inr ⟨rfl, rfl⟩
  | acked => exact Or.inl (List.mem_of_mem_filter hq)

/-- After a worker step an attempt is `RUNNING` as before, or the worker has started it. -/
theorem WorkerEffect.runner {s u : State} {p p' : Process} {e : WorkerEvent}
    (h : WorkerEffect s p e u p') {a' : InvocationAttempt} (ha : a' ∈ u.db.attempts)
    (hrun : a'.status = .running) :
    (∃ a ∈ s.db.attempts, a.workerId = a'.workerId ∧ a.status = .running) ∨
      e.takes = true ∧ a'.workerId = some p.workerId := by
  have hnone : NoneStarted s.db u.db →
      ∃ a ∈ s.db.attempts, a.workerId = a'.workerId ∧ a.status = .running :=
    fun hn => hn.runner ha hrun
  cases h with
  | own | claimed | autoclaimed | read | acked | offlined => exact Or.inl (hnone (.of_eq rfl))
  | heartbeat db hdb =>
    obtain ⟨workers, rfl⟩ := recordHeartbeat_some hdb
    exact Or.inl (hnone (.of_eq rfl))
  | scanned =>
    refine Or.inl (hnone ?_)
    rw [recoverStaleWorkers_db]
    exact .recovered (readRecovery_of _ _ _ _) _
  | started j c attemptId db attempt hc hst hm =>
    obtain ⟨i, hi⟩ := markRunning_started hm
    rcases hi.attempts.mp ha with ha | rfl
    · exact Or.inl ⟨a', ha, rfl, hrun⟩
    · exact Or.inr ⟨rfl, hi.worker⟩
  | dismissed j c attemptId db error hc hst hm => exact Or.inl (hnone (.markRunning hm))
  | notStarted j c attemptId db error hc hst hm => exact Or.inl (hnone (.markRunning hm))
  | finished j c attempt result jitter dispatchId db row hc hst hm =>
    exact Or.inl (hnone (.markFinished hm))
  | shutDown db hl hdb =>
    obtain ⟨workers, rfl⟩ := recordHeartbeat_some hdb
    exact Or.inl (hnone (.of_eq rfl))

/-- A row that is offline after a safe worker step belongs to a worker that was idle, and if the
step takes something it is not the row of the worker that takes it. -/
theorem WorkersMove.idle {s : State} {n : Nat} {p : Process} {db : Database} {e : WorkerEvent}
    (hm : WorkersMove s p db e) (h : OwnsNothing s) (hcrew : CrewWf s)
    (hp : s.processes[n]? = some p) (hsafe : SafeOffline s (.worker n e)) {w' : Worker}
    (hw' : w' ∈ db.workers) (hoff : w'.status = .offline) :
    Idle s w'.id ∧ (e.takes = true → w'.id ≠ p.workerId) := by
  cases hm with
  | same e he =>
    rw [he] at hw'
    exact ⟨h w' hw' hoff, fun ht hid => hsafe.not_marked hp ht ⟨w', hw', hid, hoff⟩⟩
  | beat hb =>
    obtain ⟨w, hw, rfl⟩ := (mem_recordHeartbeat hb).mp hw'
    split at hoff
    · exact absurd hoff (hcrew.runtime p (List.mem_of_getElem? hp))
    · rename_i hne
      rw [if_neg hne]
      exact ⟨h w hw hoff, fun ht => by cases ht⟩
  | offlined scan recovered hl he =>
    rw [he] at hw'
    obtain ⟨w, hw, rfl⟩ := mem_markWorkersOffline.mp hw'
    refine ⟨?_, fun ht => by cases ht⟩
    split at hoff
    · rename_i hid
      rw [if_pos hid]
      exact hsafe p hp scan (by rw [hl]; rfl) w hw hid
    · rename_i hid
      rw [if_neg hid]
      exact h w hw hoff
  | shutDown hl hb =>
    obtain ⟨w, hw, rfl⟩ := (mem_recordHeartbeat hb).mp hw'
    refine ⟨?_, fun ht => by cases ht⟩
    split
    · rename_i hid
      show Idle s w.id
      rw [hid]
      exact hsafe p hp
    · rename_i hne
      rw [if_neg hne] at hoff
      exact h w hw hoff

theorem ownsNothing_step {s t : State} {e : Event} (hr : Reachable step init s)
    (h : OwnsNothing s) (hsafe : SafeOffline s e) (hs : step s e = some t) : OwnsNothing t := by
  have hu : ∀ q ∈ t.group.pending, Unfinished t q.id → Unfinished s q.id :=
    fun q hq => unfinished_of_step hr hs hq
  have hsame : ∀ {workerId : UUID}, t.db.attempts = s.db.attempts →
      t.group.pending = s.group.pending → t.crew = s.crew → Idle s workerId → Idle t workerId := by
    intro workerId ha hp hc hi
    have hn : NoneStarted s.db t.db := .of_eq ha
    refine hi.frame (fun a' ha' _ => hn.runner ha') (fun q hq hm => ?_) hu
    exact ⟨q, hp ▸ hq, rfl, hc ▸ hm⟩
  intro w' hw' hoff
  cases step_effect hs with
  | ticked | selected | committed | rolledBack => exact hsame rfl rfl rfl (h w' hw' hoff)
  | created request version invocationId dispatchId queuedAt db hq hc =>
    obtain ⟨_, _, -, -, rfl⟩ := insertInvocation_ok hc
    exact hsame rfl rfl rfl (h w' hw' hoff)
  | published b d todo done outcome hb =>
    refine hsame rfl ?_ rfl (h w' hw' hoff)
    show (addMessage s.group _ _).pending = _
    generalize (publishDispatch s.db d outcome (s.group.entries.length + 1) s.clock).2 = m
    cases m <;> rfl
  | registered workerId hostname consumerName persisted config workers hn hi =>
    rcases (Table.mem_insert hi).mp hw' with hw | rfl
    · -- the new process is not the old row's
      have hne : w'.id ≠ workerId := Table.get_eq_none.mp (Table.insert_fresh hi) w' hw
      have hn : NoneStarted s.db { s.db with workers := workers } := .of_eq rfl
      refine (h w' hw hoff).frame (fun a' ha' _ => hn.runner ha') (fun q hq hm => ?_) hu
      refine ⟨q, hq, rfl, ?_⟩
      simpa [State.crew, hne] using hm
    · cases hoff
  | worked n p e u p' hp hw =>
    obtain ⟨hidle, hne⟩ := hw.workers.idle h (crew_reachable hr) hp hsafe hw' hoff
    refine hidle.frame (fun a' ha' haw hrun => ?_) (fun q' hq' hc => ?_) hu
    · rcases hw.runner ha' hrun with hold | ⟨ht, heq⟩
      · exact hold
      · exact absurd (Option.some.inj (haw.symm.trans heq)) (hne ht)
    · rw [crew_setProcess hp hw] at hc
      rcases hw.holder hq' with hq | ⟨ht, heq⟩
      · exact ⟨q', hq, rfl, hc⟩
      · rw [heq] at hc
        exact absurd ((crew_reachable hr).worker_eq hc (CrewWf.mem_crew (List.mem_of_getElem? hp)))
          (hne ht)

/-- Marking a row changes nothing that `Idle` looks at. -/
theorem Idle.of_marked {s t : State} {workerId : UUID} (h : Idle t workerId)
    (ha : t.db.attempts = s.db.attempts) (hi : t.db.invocations = s.db.invocations)
    (hg : t.group = s.group) (hc : t.crew = s.crew) : Idle s workerId := by
  unfold Idle Unfinished at h ⊢
  rw [ha, hi, hg, hc] at h
  exact h

/-- A marking that keeps the property was a safe one. -/
theorem safe_of_ownsNothing {s t : State} {n : Nat} {e : WorkerEvent} (hr : Reachable step init s)
    (he : e = .markWorkersOffline ∨ e = .markOffline) (hs : step s (.worker n e) = some t)
    (h : OwnsNothing t) : SafeOffline s (.worker n e) := by
  obtain ⟨p, hp, hs⟩ := Option.bind_eq_some_iff.mp hs
  obtain ⟨⟨u, p'⟩, hu, rfl⟩ := Option.map_eq_some_iff.mp hs
  have hc := crew_setProcess hp (workerStep_effect hu)
  have hsame : ∀ {q : Process}, s.processes[n]? = some q → q = p :=
    fun hq => Option.some.inj (hq.symm.trans hp)
  rcases he with rfl | rfl
  · simp only [workerStep] at hu
    split at hu
    · rename_i scan recovered hl
      cases hu
      intro q hq scan' hscan w hw hid
      obtain rfl := hsame hq
      rw [hl] at hscan
      cases hscan
      have hidle := h w.goOffline (mem_markWorkersOffline.mpr ⟨w, hw, if_pos hid⟩) rfl
      exact hidle.of_marked rfl rfl rfl hc
    · cases hu
  · simp only [workerStep] at hu
    split at hu
    · obtain ⟨db, hdb, he⟩ := Option.map_eq_some_iff.mp hu
      cases he
      intro q hq
      obtain rfl := hsame hq
      obtain ⟨w, hw, hid⟩ := (crew_reachable hr).rows _ (CrewWf.mem_crew (List.mem_of_getElem? hp))
      have hidle := h (w.beat 0 .offline s.clock)
        ((mem_recordHeartbeat hdb).mpr ⟨w, hw, if_pos hid⟩) rfl
      obtain ⟨_, -, rfl⟩ := Option.map_eq_some_iff.mp hdb
      rw [← show w.id = q.workerId from hid]
      exact hidle.of_marked rfl rfl rfl hc
    · cases hu

/-- **In a run that marks only idle workers, and in which marked workers take nothing, an offline
worker owns no unfinished work**; and a marking keeps it so only if the marked workers are idle. -/
theorem offline_owns_nothing {s : State} (h : ReachableBy step SafeOffline init s) :
    OwnsNothing s ∧ ∀ n e t, (e = .markWorkersOffline ∨ e = .markOffline) →
      step s (.worker n e) = some t → (OwnsNothing t ↔ SafeOffline s (.worker n e)) := by
  have hown : OwnsNothing s := by
    refine h.invariant (fun s hs => ?_) fun hr hi hsafe hs =>
      ownsNothing_step hr.reachable hi hsafe hs
    obtain ⟨⟨functions, versions, hdb⟩, -⟩ := hs
    intro w hw
    rw [hdb] at hw
    exact absurd hw (Table.not_mem_empty w)
  refine ⟨hown, fun n e t he hs => ⟨fun ht => ?_, fun hsafe => ?_⟩⟩
  · exact safe_of_ownsNothing h.reachable he hs ht
  · exact ownsNothing_step h.reachable hown hsafe hs

/-- A dead worker is recovered: its entry is claimed and executed, then its row is marked. -/
def recoveredAndMarked : List Event :=
  opening [(10, "a"), (11, "b")] ++ readNew 0 ++
    [.tick (seconds 31), .worker 0 .stop, .worker 1 .heartbeat, .worker 1 .recoverStaleWorkers,
      .worker 1 .xpending, .worker 1 .xclaim, .worker 1 .proceed, .worker 1 .proceed,
      .worker 1 (.markRunning 0 20), .worker 1 (.refresh 0),
      .worker 1 (.execute 0 (.succeeded (.str "done"))), .worker 1 (.markFinished 0 id 21),
      .worker 1 (.xack 0), .worker 1 .proceed, .worker 1 .markWorkersOffline]

/-- Every step of `recoveredAndMarked` is safe, and a row is offline at its end. -/
theorem offline_owns_nothing_recovered : ∃ s, ReachableBy step SafeOffline init s ∧
    (∃ w ∈ s.db.workers, w.status = .offline) ∧ OwnsNothing s := by
  obtain ⟨s, hs, hp⟩ := reachableBy_of_replayWhere step recoveredAndMarked
    (fun s => s.db.workers.rows.any fun w => w.status = .offline)
    (fun s e (hc : decide (SafeOffline s e) = true) => of_decide_eq_true hc) init_empty (by decide)
  simp only [List.any_eq_true, decide_eq_true_eq] at hp
  exact ⟨s, hs, hp, (offline_owns_nothing hs).1⟩

/-- A worker is interrupted while it executes its only task, and stops in order. -/
def stoppedInFlight : List Event :=
  opening [(10, "a")] ++ readNew 0 ++
    [.worker 0 (.markRunning 0 20), .worker 0 (.refresh 0), .worker 0 .interrupt,
      .worker 0 .markOffline]

/-- After `stoppedInFlight` the offline worker has a `RUNNING` attempt, and its entry is pending. -/
theorem not_offline_owns_nothing : ∃ s, Reachable step init s ∧ ¬ OwnsNothing s := by
  obtain ⟨s, hs, hp⟩ := reachable_of_replay step stoppedInFlight
    (fun s => s.db.workers.rows.any fun w => w.status = .offline ∧ ¬ Idle s w.id) init_empty
    (by decide)
  simp only [List.any_eq_true, decide_eq_true_eq] at hp
  obtain ⟨w, hw, hoff, hidle⟩ := hp
  exact ⟨s, hs, fun h => hidle (h w hw hoff)⟩

end Serverless.Cluster
