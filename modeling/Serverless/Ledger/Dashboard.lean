import Serverless.Ledger.RecoveryPass
import Serverless.Model.Metrics
import Serverless.Model.Progress

/-!
# Dashboard numbers and the state machine

The metrics read other columns than the ones they are compared with: completion times where the
state machine has statuses, counters where it has attempt rows. They agree because the worker's
calls keep the columns in step.
-/
namespace Serverless.Ledger

open Serverless.Library Serverless.Model

/-- An invocation has a completion time exactly when its status is terminal. -/
def CompletedIfTerminal (i : Invocation) : Prop := i.completedAt ≠ none ↔ i.status.isTerminal

/-- An attempt has a completion time and a duration exactly when it is not running. -/
def TimedIfClosed (a : InvocationAttempt) : Prop :=
  (a.completedAt ≠ none ↔ a.status ≠ .running) ∧ (a.durationMs ≠ none ↔ a.status ≠ .running)

/-- The times of the rows are in step with their statuses. -/
structure Timed (db : Database) : Prop where
  invocation : ∀ i ∈ db.invocations, CompletedIfTerminal i
  attempt : ∀ a ∈ db.attempts, TimedIfClosed a

theorem completedIfTerminal_open {i : Invocation} (ht : ¬ i.status.isTerminal) (hc : i.completedAt = none) :
    CompletedIfTerminal i :=
  ⟨fun hx => absurd hc hx, fun hx => absurd hx ht⟩

theorem completedIfTerminal_closed {i : Invocation} (ht : i.status.isTerminal) (hc : i.completedAt ≠ none) :
    CompletedIfTerminal i :=
  ⟨fun _ => ht, fun _ => hc⟩

theorem timedIfClosed_finish {a : InvocationAttempt} {result : RuntimeExecutionResult} {now : Time}
    (hr : result.status ≠ .running) : TimedIfClosed (a.finish result now a) := by
  simp [TimedIfClosed, InvocationAttempt.finish, hr]

namespace Timed

variable {db db' : Database}

theorem congr (h : Timed db) (hi : db'.invocations = db.invocations) (ha : db'.attempts = db.attempts) :
    Timed db' :=
  ⟨fun i him => h.invocation i (hi ▸ him), fun a ham => h.attempt a (ha ▸ ham)⟩

theorem open_none (h : Timed db) {i : Invocation} (hi : i ∈ db.invocations) (ho : ¬ i.status.isTerminal) :
    i.completedAt = none := by
  by_contra hx
  exact ho ((h.invocation i hi).mp hx)

theorem created {request : CreateRequest} {version : FunctionVersion} {invocationId dispatchId : UUID}
    {now : Time} (h : Timed db)
    (hc : insertInvocation db request version invocationId dispatchId now = .ok db') : Timed db' := by
  obtain ⟨invocations, dispatches, hi, hd, rfl⟩ := insertInvocation_ok hc
  refine ⟨fun i him => ?_, h.attempt⟩
  rcases (Table.mem_insert hi).mp him with him | rfl
  · exact h.invocation i him
  · exact completedIfTerminal_open (show ¬ InvocationStatus.queued.isTerminal by decide) rfl

theorem marked (h : Timed db) (task : InvocationTask) (workerId : Option UUID) (attemptId : UUID)
    (now : Time) : Timed (markRunning db task workerId attemptId now).1 := by
  rcases hm : markRunning db task workerId attemptId now with ⟨db', r⟩
  cases markRunning_cases hm with
  | missing | terminal | superseded | future | late | rejected => exact h
  | expired i hget ht hs hd =>
    refine ⟨fun j hj => ?_, h.attempt⟩
    rcases Table.mem_modify_cases (by exact fun _ => ⟨rfl, rfl⟩) hget hj with rfl | ⟨hj, -⟩
    · exact completedIfTerminal_closed (show InvocationStatus.timeout.isTerminal by decide)
        (by simp [Invocation.expire])
    · exact h.invocation j hj
  | started i attempts hget hs hd hn hv =>
    have hnone := h.open_none (Table.get_mem hget) (TerminalKept.waiting_not_terminal hs)
    refine ⟨fun j hj => ?_, fun a ha => ?_⟩
    · rcases Table.mem_modify_cases (by exact fun _ => ⟨rfl, rfl⟩) hget hj with rfl | ⟨hj, -⟩
      · exact completedIfTerminal_open (show ¬ InvocationStatus.running.isTerminal by decide) hnone
      · exact h.invocation j hj
    · rcases (Table.mem_insert hv).mp ha with ha | rfl
      · exact h.attempt a ha
      · simp [TimedIfClosed, newAttempt]

theorem finished (h : Timed db) (invocationId attemptId : UUID) {result : RuntimeExecutionResult}
    (decision : RetryDecision) (dispatchId : UUID) (now : Time) (hr : result.status ≠ .running) :
    Timed (markFinished db invocationId attemptId none result decision dispatchId now).1 := by
  rcases hm : markFinished db invocationId attemptId none result decision dispatchId now with ⟨db', r⟩
  have hattempt {a b : InvocationAttempt} (ha : a ∈ db.attempts)
      (hb : b ∈ db.attempts.modify a.id (a.finish result now) fun _ => ⟨rfl, rfl⟩) : TimedIfClosed b := by
    rcases Table.mem_modify_cases (by exact fun _ => ⟨rfl, rfl⟩) (Table.get_of_mem ha) hb with rfl | ⟨hb, -⟩
    · exact timedIfClosed_finish hr
    · exact h.attempt b hb
  cases markFinished_cases hm with
  | raised | rejected => exact h
  | retried i a dispatches hget hload hinv hi hrun hretry hv =>
    refine ⟨fun j hj => ?_, fun b hb => hattempt (mem_of_loadAttempt hload) hb⟩
    rcases Table.mem_modify_cases (by exact fun _ => ⟨rfl, rfl⟩) hget hj with rfl | ⟨hj, -⟩
    · exact completedIfTerminal_open (show ¬ InvocationStatus.retrying.isTerminal by decide) rfl
    · exact h.invocation j hj
  | completed i a status hget hload hinv hi hrun hretry hs =>
    refine ⟨fun j hj => ?_, fun b hb => hattempt (mem_of_loadAttempt hload) hb⟩
    rcases Table.mem_modify_cases (by exact fun _ => ⟨rfl, rfl⟩) hget hj with rfl | ⟨hj, -⟩
    · exact completedIfTerminal_closed (attemptToInvocationStatus_isTerminal hs)
        (by simp [Invocation.complete])
    · exact h.invocation j hj

theorem recovered {staleAfterSeconds : Nat} {locked : List UUID} {r : RecoveryRead} (h : Timed db)
    (hr : ReadOf db staleAfterSeconds locked r) (maxAttempts : Nat) :
    Timed (commitRecovery db r maxAttempts) := by
  refine ⟨fun i' hi' => ?_, fun a' ha' => ?_⟩
  · obtain ⟨i, hi, rfl | ⟨p, hp, rfl, rfl⟩⟩ := hr.mem_invocations hi'
    · exact h.invocation i' hi
    · have hrun := (hr.invocation p hp).2.2
      have hnone := h.open_none hi (TerminalKept.running_not_terminal hrun)
      unfold CompletedIfTerminal
      rw [Invocation.lose_status hrun]
      unfold Invocation.lose
      split
      · simp [InvocationStatus.isTerminal, terminalInvocationStatuses]
      · simp [hnone, InvocationStatus.isTerminal, terminalInvocationStatuses]
  · obtain ⟨a, ha, rfl | ⟨p, hp, rfl, rfl⟩⟩ := hr.mem_attempts ha'
    · exact h.attempt a' ha
    · simp [TimedIfClosed, InvocationAttempt.lose]

end Timed

theorem timed_step {s t : State} {c : Call} (h : Timed s.db) (he : Effect s c t) : Timed t.db := by
  cases he with
  | unrelated c db hi ha hd => exact h.congr hi ha
  | created request version invocationId dispatchId now db hc => exact h.created hc
  | dispatched limit now outcomes => exact h.congr rfl rfl
  | marked message messageId recovered workerId attemptId now hm => exact h.marked _ _ _ _
  | finished invocationId attemptId attempt result policy dispatchId now ha hr =>
    exact h.finished _ _ _ _ _ hr
  | recovered staleAfterSeconds maxAttempts now =>
    exact h.recovered (readRecovery_of s.db staleAfterSeconds [] now) maxAttempts

theorem timed_reachable {s : State} (h : Reachable step init s) : Timed s.db := by
  refine h.invariant (I := fun s => Timed s.db) ?_ fun _ hi hs => timed_step hi (step_effect hs)
  rintro s ⟨functions, versions, rfl⟩
  exact ⟨fun i hi => absurd hi (Table.not_mem_empty i), fun a ha => absurd ha (Table.not_mem_empty a)⟩

/-! ## Counting -/

section Counts

variable {db : Database} (ownerId : UUID)

theorem mem_ownerInvocations {i : Invocation} :
    i ∈ db.ownerInvocations ownerId ↔ i ∈ db.invocations ∧ i.ownerId = ownerId := by
  simp [Database.ownerInvocations, Table.mem_rows]

theorem nodup_ownerIds (db : Database) : ((db.ownerInvocations ownerId).map (·.id)).Nodup :=
  db.invocations.primary.sublist (List.filter_sublist.map _)

/-- The join on the invocation is membership of its id among the owner's. -/
theorem join_iff (db : Database) (id : UUID) :
    ((db.invocations.get id).any fun i => i.ownerId = ownerId) = true ↔
      id ∈ (db.ownerInvocations ownerId).map (·.id) := by
  constructor
  · intro h
    cases hget : db.invocations.get id with
    | none => simp [hget] at h
    | some i =>
      have ho : i.ownerId = ownerId := by simpa [hget] using h
      exact List.mem_map.mpr
          ⟨i, (mem_ownerInvocations ownerId).mpr ⟨Table.get_mem hget, ho⟩, Table.get_key hget⟩
  · intro h
    obtain ⟨i, hi, rfl⟩ := List.mem_map.mp h
    obtain ⟨him, ho⟩ := (mem_ownerInvocations ownerId).mp hi
    rw [Table.get_of_mem him]
    simpa using ho

theorem mem_ownerAttempts {a : InvocationAttempt} (h : a ∈ db.ownerAttempts ownerId) : a ∈ db.attempts :=
  (List.mem_filter.mp h).1

/-- The owner's attempts with a property, counted invocation by invocation. -/
theorem countP_ownerAttempts (db : Database) (p : InvocationAttempt → Bool) :
    (db.ownerAttempts ownerId).countP p =
      ((db.ownerInvocations ownerId).map fun i => (db.attemptsOf i.id).countP p).sum := by
  have hids : ((db.ownerInvocations ownerId).map fun i => (db.attemptsOf i.id).countP p) =
      ((db.ownerInvocations ownerId).map (·.id)).map fun k =>
        db.attempts.rows.countP fun a => a.invocationId = k ∧ p a := by
    rw [List.map_map]
    apply List.map_congr_left
    intro i _
    rw [Database.attemptsOf, List.countP_filter]
    apply List.countP_congr
    intro a _
    simp [and_comm]
  rw [hids, sum_countP_of_key _ _ _ (nodup_ownerIds ownerId db), Database.ownerAttempts, List.countP_filter]
  apply List.countP_congr
  intro a _
  rw [Bool.and_eq_true, join_iff, decide_eq_true_eq, and_comm]

theorem sum_ite_eq_countP {α : Type*} (l : List α) (p : α → Prop) [DecidablePred p] :
    (l.map fun a => if p a then 1 else 0).sum = l.countP fun a => p a := by
  induction l with
  | nil => rfl
  | cons a l ih =>
    rw [List.map_cons, List.sum_cons, ih, List.countP_cons, add_comm]
    simp

theorem countP_terminal (l : List Invocation) :
    l.countP (fun i => i.status.isTerminal) =
      l.countP (fun i => i.status = .succeeded) + (l.countP (fun i => i.status = .failed) +
        l.countP (fun i => i.status = .timeout) + l.countP fun i => i.status = .canceled) := by
  induction l with
  | nil => rfl
  | cons i l ih =>
    simp only [List.countP_cons, ih]
    cases i.status <;> simp [InvocationStatus.isTerminal, terminalInvocationStatuses] <;> omega

theorem countP_range'_two (n : Nat) : (List.range' 1 n).countP (fun k => 2 ≤ k) = n - 1 := by
  cases n with
  | zero => rfl
  | succ n =>
    rw [List.range'_succ, List.countP_cons, List.countP_eq_length.mpr]
    · simp
    · intro k hk
      have := (List.mem_range'_1.mp hk).1
      simp only [decide_eq_true_eq]
      omega

end Counts

/-! ## Agreement -/

section Agreement

variable {db : Database}

/-- One latency sample for each terminal invocation. -/
theorem Timed.latency_samples (h : Timed db) (ownerId : UUID) :
    (db.getInvocationDurations ownerId).length =
      (db.ownerInvocations ownerId).countP fun i => i.status.isTerminal := by
  rw [Database.getInvocationDurations, List.length_insertionSort, List.length_filterMap_eq_countP]
  apply List.countP_congr
  intro i hi
  have hci : i.completedAt ≠ none ↔ i.status.isTerminal :=
    h.invocation i ((mem_ownerInvocations ownerId).mp hi).1
  rw [decide_eq_true_eq, ← hci]
  cases i.completedAt <;> simp

/-- One execution sample for each attempt that is not running. -/
theorem Timed.execution_samples (h : Timed db) (ownerId : UUID) :
    (db.getExecutionDurations ownerId).length =
      (db.ownerAttempts ownerId).countP fun a => a.status ≠ .running := by
  rw [Database.getExecutionDurations, List.length_insertionSort, List.length_filterMap_eq_countP,
    List.countP_filter]
  apply List.countP_congr
  intro a ha
  obtain ⟨hc, hd⟩ := h.attempt a (mem_ownerAttempts ownerId ha)
  simp only [Bool.and_eq_true, decide_eq_true_eq, hc, hd, and_self, and_iff_right_iff_imp]
  intro hrun
  exact Option.isSome_iff_ne_none.mpr (hd.mpr hrun)

theorem Numbered.countP_retries (h : Numbered db) {i : Invocation} (hi : i ∈ db.invocations) :
    (db.attemptsOf i.id).countP (fun a => 2 ≤ a.attemptNumber) = i.attemptCount - 1 := by
  have hmap : (db.attemptsOf i.id).countP (fun a => 2 ≤ a.attemptNumber) =
      ((db.attemptsOf i.id).map (·.attemptNumber)).countP fun k => 2 ≤ k := by
    rw [List.countP_map]
    rfl
  rw [hmap, (attemptNumbers_perm h hi).countP_eq, countP_range'_two]

/-- A running invocation has one running attempt, the last one, and no other has any. -/
theorem Numbered.countP_running (h : Numbered db) {i : Invocation} (hi : i ∈ db.invocations) :
    (db.attemptsOf i.id).countP (fun a => a.status = .running) = if i.status = .running then 1 else 0 := by
  have hat := h.each i hi
  by_cases hrun : i.status = .running
  · have hlast : (db.attemptsOf i.id).countP (fun a => a.status = .running) =
        ((db.attemptsOf i.id).map (·.attemptNumber)).countP fun k => k = i.attemptCount := by
      rw [List.countP_map]
      apply List.countP_congr
      intro a ha
      obtain ⟨ha, hai⟩ := Database.mem_attemptsOf.mp ha
      simp [hat.running a ha hai, hrun]
    have hmem : i.attemptCount ∈ List.range' 1 i.attemptCount := by
      have := hat.started hrun
      exact List.mem_range'_1.mpr (by omega)
    rw [if_pos hrun, hlast, (attemptNumbers_perm h hi).countP_eq]
    exact List.count_eq_one_of_mem List.nodup_range' hmem
  · rw [if_neg hrun, List.countP_eq_zero]
    intro a ha
    obtain ⟨ha, hai⟩ := Database.mem_attemptsOf.mp ha
    simpa using h.not_running hi hrun ha hai

theorem Numbered.running_count (h : Numbered db) (ownerId : UUID) :
    (db.ownerAttempts ownerId).countP (fun a => a.status = .running) =
      (db.ownerInvocations ownerId).countP fun i => i.status = .running := by
  rw [countP_ownerAttempts, ← sum_ite_eq_countP]
  congr 1
  apply List.map_congr_left
  intro i hi
  exact h.countP_running ((mem_ownerInvocations ownerId).mp hi).1

theorem Numbered.retry_count (h : Numbered db) (ownerId : UUID) :
    db.getRetryCount ownerId = (db.ownerAttempts ownerId).countP fun a => 2 ≤ a.attemptNumber := by
  rw [countP_ownerAttempts, Database.getRetryCount]
  congr 1
  apply List.map_congr_left
  intro i hi
  exact (h.countP_retries ((mem_ownerInvocations ownerId).mp hi).1).symm

theorem queue_depth (ownerId : UUID) (now : Time) :
    (db.getQueueSummary ownerId now).depth =
      db.getInvocationStatusCounts ownerId .queued + db.getInvocationStatusCounts ownerId .retrying := by
  rw [Database.getInvocationStatusCounts, Database.getInvocationStatusCounts, countP_add_of_disjoint]
  · simp only [Database.getQueueSummary, List.countP_eq_length_filter]
    congr 2
    funext i
    simp
  · rintro i ⟨hq, hr⟩
    rw [decide_eq_true_eq] at hq hr
    rw [hq] at hr
    cases hr

theorem Timed.throughput_le (h : Timed db) (ownerId : UUID) (now : Time) :
    db.getRecentThroughput ownerId now ≤
      (db.ownerInvocations ownerId).countP fun i => i.status.isTerminal := by
  apply List.countP_mono_left
  intro i hi hrecent
  rw [decide_eq_true_eq]
  refine (h.invocation i ((mem_ownerInvocations ownerId).mp hi).1).mp fun hnone => ?_
  simp [hnone] at hrecent

end Agreement

/-- Over every history of complete calls, for every owner and time, the numbers of the dashboard
agree with each other and with the rows. -/
theorem dashboard_agrees {s : State} (h : Reachable step init s) (ownerId : UUID)
    (staleAfterSeconds : Nat) (now workersNow : Time) :
    let summary := s.db.getSummary ownerId staleAfterSeconds now workersNow
    summary.invocations.total = summary.invocations.queued + summary.invocations.running +
        summary.invocations.retrying + summary.invocations.terminal ∧
      (s.db.getInvocationDurations ownerId).length = summary.invocations.terminal ∧
      (s.db.getExecutionDurations ownerId).length =
        (s.db.ownerAttempts ownerId).countP (fun a => a.status ≠ .running) ∧
      summary.queue.depth = summary.invocations.queued + summary.invocations.retrying ∧
      summary.invocations.retryCount =
        (s.db.ownerAttempts ownerId).countP (fun a => 2 ≤ a.attemptNumber) ∧
      summary.invocations.throughputPerMinute ≤ summary.invocations.terminal ∧
      summary.invocations.running =
        (s.db.ownerAttempts ownerId).countP (fun a => a.status = .running) := by
  have htimed := timed_reachable h
  have hnumbered := (inv_reachable h).numbered
  have hterminal := countP_terminal (s.db.ownerInvocations ownerId)
  refine ⟨?_, ?_, htimed.execution_samples ownerId, queue_depth ownerId now, hnumbered.retry_count ownerId,
    ?_, (hnumbered.running_count ownerId).symm⟩
  · simp only [Database.getSummary, Database.getInvocationSummary]
    omega
  · rw [htimed.latency_samples, hterminal]
    rfl
  · refine (htimed.throughput_le ownerId now).trans_eq ?_
    rw [hterminal]
    rfl

/-- The owner of `lostWorkerRun` has one invocation, which runs its second attempt. -/
theorem dashboard_agrees_lostWorker : ∃ s, Reachable step init s ∧
    (s.db.getSummary 7 15 (seconds 22) (seconds 22)).invocations.running = 1 ∧
    (s.db.ownerAttempts 7).countP (fun a => a.status = .running) = 1 ∧
    (s.db.ownerAttempts 7).countP (fun a => 2 ≤ a.attemptNumber) =
      (s.db.getSummary 7 15 (seconds 22) (seconds 22)).invocations.retryCount := by
  obtain ⟨s, hs, hp⟩ := reachable_of_replay step lostWorkerRun
    (fun s => s.db.getInvocationStatusCounts 7 .running = 1) init_empty (by decide)
  have hrunning := of_decide_eq_true hp
  obtain ⟨-, -, -, -, hretry, -, hrun⟩ := dashboard_agrees hs 7 15 (seconds 22) (seconds 22)
  exact ⟨s, hs, hrunning, hrun.symm.trans hrunning, hretry.symm⟩

end Serverless.Ledger
