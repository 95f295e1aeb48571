import Serverless.Ledger.Bounds
import Serverless.Ledger.Origins
import Serverless.Model.Progress

/-!
# The life of an invocation

What a complete call can do to one invocation row: nothing, or one of five moves, each along an edge
of the status graph and each raising the progress of the row. So a row never comes back to an earlier
record, a terminal one is final, and with an attempt limit the number of moves is bounded.
-/
namespace Serverless.Ledger

open Serverless.Library Serverless.Model

/-- The moves of an invocation row. -/
inductive Moves (i : Invocation) : Invocation → Prop where
  | start (hw : i.status = .queued ∨ i.status = .retrying) (now : Time) :
      Moves i (i.start (i.attemptCount + 1) now)
  | expire (hw : i.status = .queued ∨ i.status = .retrying) (now : Time) : Moves i (i.expire now)
  | retry (hr : i.status = .running) (result : RuntimeExecutionResult) : Moves i (i.retry result)
  | complete (hr : i.status = .running) {status : InvocationStatus} (ht : status.isTerminal)
      (result : RuntimeExecutionResult) (now : Time) : Moves i (i.complete status result now)
  | lose (hr : i.status = .running) (maxAttempts : Nat) (now : Time) :
      Moves i (i.lose maxAttempts now i)

/-- How far an invocation has come: attempts count twice, an attempt that runs is half done, and an
end is an end. -/
def progress (i : Invocation) : Nat :=
  match i.status with
  | .queued | .retrying => 2 * i.attemptCount
  | .running => 2 * i.attemptCount - 1
  | .succeeded | .failed | .timeout | .canceled => 2 * i.attemptCount + 1

theorem progress_le (i : Invocation) : progress i ≤ 2 * i.attemptCount + 1 := by
  unfold progress
  split <;> omega

theorem progress_waiting {i : Invocation} (h : i.status = .queued ∨ i.status = .retrying) :
    progress i = 2 * i.attemptCount := by
  rcases h with h | h <;> simp [progress, h]

theorem progress_running {i : Invocation} (h : i.status = .running) :
    progress i = 2 * i.attemptCount - 1 := by
  simp [progress, h]

theorem progress_terminal {i : Invocation} (h : i.status.isTerminal) :
    progress i = 2 * i.attemptCount + 1 := by
  cases hs : i.status <;> simp [progress, hs]
  all_goals
    rw [hs] at h
    exact absurd h (by decide)

namespace Moves

variable {i j : Invocation}

theorem not_terminal (h : Moves i j) : ¬ i.status.isTerminal := by
  cases h with
  | start hw now => exact TerminalKept.waiting_not_terminal hw
  | expire hw now => exact TerminalKept.waiting_not_terminal hw
  | retry hr result => exact TerminalKept.running_not_terminal hr
  | complete hr ht result now => exact TerminalKept.running_not_terminal hr
  | lose hr maxAttempts now => exact TerminalKept.running_not_terminal hr

theorem start_attemptCount (i : Invocation) (now : Time) :
    (i.start (i.attemptCount + 1) now).attemptCount = i.attemptCount + 1 := by
  simp only [Invocation.start]
  omega

/-- **Every move is a step forward.** -/
theorem progress_lt (h : Moves i j) (hstarted : i.status = .running → 1 ≤ i.attemptCount) :
    progress i < progress j := by
  cases h with
  | start hw now =>
    rw [progress_waiting hw, progress_running (i := i.start _ now) rfl, start_attemptCount]
    omega
  | expire hw now =>
    rw [progress_waiting hw,
      progress_terminal (i := i.expire now) (by decide : InvocationStatus.isTerminal .timeout)]
    exact Nat.lt_succ_self _
  | retry hr result =>
    have := hstarted hr
    rw [progress_running hr, progress_waiting (i := i.retry result) (Or.inr rfl)]
    change _ < 2 * i.attemptCount
    omega
  | complete hr ht result now =>
    rw [progress_running hr, progress_terminal (i := i.complete _ result now) ht]
    change _ < 2 * i.attemptCount + 1
    omega
  | lose hr maxAttempts now =>
    have := hstarted hr
    have hstatus := Invocation.lose_status hr maxAttempts now i
    have hcount := Invocation.lose_attemptCount i maxAttempts now i
    rw [progress_running hr]
    by_cases hmax : maxAttempts ≤ i.attemptCount
    · rw [if_pos hmax] at hstatus
      rw [progress_terminal (by rw [hstatus]; decide), hcount]
      omega
    · rw [if_neg hmax] at hstatus
      rw [progress_waiting (Or.inr hstatus), hcount]
      omega

theorem attemptCount_le (h : Moves i j) : i.attemptCount ≤ j.attemptCount := by
  cases h with
  | start hw now => rw [start_attemptCount]; omega
  | expire | retry | complete => exact le_rfl
  | lose hr maxAttempts now => exact (Invocation.lose_attemptCount i maxAttempts now i).ge

end Moves

/-- What an invocation is about: no move changes it. -/
structure SameWork (i j : Invocation) : Prop extends SameTerms i j where
  idempotencyKey : j.idempotencyKey = i.idempotencyKey
  payload : j.payloadInline = i.payloadInline
  createdAt : j.createdAt = i.createdAt

namespace SameWork

theorem refl (i : Invocation) : SameWork i i := ⟨.refl i, rfl, rfl, rfl⟩

theorem trans {i j k : Invocation} (h : SameWork i j) (h' : SameWork j k) : SameWork i k where
  toSameTerms := h.toSameTerms.trans h'.toSameTerms
  idempotencyKey := h'.idempotencyKey.trans h.idempotencyKey
  payload := h'.payload.trans h.payload
  createdAt := h'.createdAt.trans h.createdAt

end SameWork

theorem Moves.sameWork {i j : Invocation} (h : Moves i j) : SameWork i j := by
  cases h with
  | start | expire | retry | complete => exact ⟨⟨rfl, rfl, rfl, rfl, rfl⟩, rfl, rfl, rfl⟩
  | lose hr maxAttempts now =>
    refine ⟨.lose i i maxAttempts now, ?_, ?_, ?_⟩
    all_goals
      unfold Invocation.lose
      split <;> rfl

/-! ## One call -/

/-- An update of one row leaves it or moves it. -/
theorem modify_moves {t : Table Invocation.id Invocation.ownerKey} {id : UUID}
    {f : Invocation → Invocation} (hf : ∀ r, (f r).id = r.id ∧ (f r).ownerKey = r.ownerKey)
    {k : Invocation} (hget : t.get id = some k) (hmove : Moves k (f k)) {i : Invocation} (hi : i ∈ t) :
    ∃ j ∈ t.modify id f hf, j = i ∨ Moves i j := by
  by_cases hid : i.id = id
  · have hik : i = k := Table.eq_of_key hi (Table.get_mem hget) (hid.trans (Table.get_key hget).symm)
    exact ⟨f k, Table.mem_modify_self hf hget, .inr (hik ▸ hmove)⟩
  · exact ⟨i, Table.mem_modify_of_ne hf hi hid, .inl rfl⟩

/-- **A complete call leaves an invocation row as it is, or makes one move with it.** -/
theorem Effect.invocation_moves {s t : State} {c : Call} (hinv : Inv s) (h : Effect s c t)
    {i : Invocation} (hi : i ∈ s.db.invocations) : ∃ j ∈ t.db.invocations, j = i ∨ Moves i j := by
  cases h with
  | unrelated c db hdb ha hd => exact ⟨i, hdb ▸ hi, .inl rfl⟩
  | created request version invocationId dispatchId now db hc =>
    obtain ⟨invocations, _, hv, -, rfl⟩ := insertInvocation_ok hc
    exact ⟨i, (Table.mem_insert hv).mpr (.inl hi), .inl rfl⟩
  | dispatched limit now outcomes => exact ⟨i, hi, .inl rfl⟩
  | marked message messageId recovered workerId attemptId now hm =>
    rcases hr : markRunning s.db (parseInvocationTask messageId message recovered) workerId
      attemptId now with ⟨db', r⟩
    cases markRunning_cases hr with
    | missing | terminal | superseded | future | late | rejected => exact ⟨i, hi, .inl rfl⟩
    | started k attempts hget hs hd hn hv =>
      exact modify_moves (by exact fun _ => ⟨rfl, rfl⟩) hget (.start hs now) hi
    | expired k hget ht hs hd =>
      -- a message of a running invocation is not ahead of its count
      have hwait : k.status = .queued ∨ k.status = .retrying := by
        rcases (InvocationStatus.not_isTerminal_iff _).mp ht with hq | hrun | hre
        · exact .inl hq
        · obtain ⟨d, hdm, hdi, hdn⟩ := hinv.published message hm
          have hb := (hinv.numbered.each k (Table.get_mem hget)).boundRunning d hdm
            (hdi.trans (Table.get_key hget).symm) hrun
          have hlt : k.attemptCount < message.attemptNumber := hs hrun
          omega
        · exact .inr hre
      exact modify_moves (by exact fun _ => ⟨rfl, rfl⟩) hget (.expire hwait now) hi
  | finished invocationId attemptId attempt result policy dispatchId now ha hr =>
    rcases hm : markFinished s.db invocationId attemptId none result
      (policy.decide result attempt.attemptNumber) dispatchId now with ⟨db', r⟩
    cases markFinished_cases hm with
    | raised | rejected => exact ⟨i, hi, .inl rfl⟩
    | retried k a dispatches hget hload hinv' hrun =>
      exact modify_moves (by exact fun _ => ⟨rfl, rfl⟩) hget (.retry hrun result) hi
    | completed k a status hget hload hinv' hrun ha' hretry hs =>
      exact modify_moves (by exact fun _ => ⟨rfl, rfl⟩) hget
        (.complete hrun (attemptToInvocationStatus_isTerminal hs) result now) hi
  | recovered staleAfterSeconds maxAttempts now =>
    have hread := readRecovery_of s.db staleAfterSeconds [] now
    obtain ⟨j, hj, hid⟩ := commitRecovery_invocation_mem
      (readRecovery s.db staleAfterSeconds [] now) maxAttempts hi
    refine ⟨j, hj, ?_⟩
    obtain ⟨k, hk, rfl | ⟨p, hp, rfl, rfl⟩⟩ := hread.mem_invocations hj
    · exact .inl (Table.eq_of_key hk hi hid)
    · have hpi : p.2 = i := Table.eq_of_key hk hi ((Invocation.lose_id _ _ _ _).symm.trans hid)
      subst hpi
      exact .inr (.lose (hread.invocation p hp).2.2 maxAttempts _)

/-! ## Runs -/

/-- The row `j` is a later record of the invocation that `i` is a record of. -/
structure Later (i j : Invocation) : Prop extends SameWork i j where
  attemptCount : i.attemptCount ≤ j.attemptCount
  forward : j = i ∨ ¬ i.status.isTerminal ∧ progress i < progress j

namespace Later

variable {i j k : Invocation}

theorem refl (i : Invocation) : Later i i := ⟨.refl i, le_rfl, .inl rfl⟩

theorem trans (h : Later i j) (h' : Later j k) : Later i k where
  toSameWork := h.toSameWork.trans h'.toSameWork
  attemptCount := h.attemptCount.trans h'.attemptCount
  forward := by
    rcases h.forward with rfl | ⟨hopen, hlt⟩
    · exact h'.forward
    · rcases h'.forward with rfl | ⟨-, hlt'⟩
      · exact .inr ⟨hopen, hlt⟩
      · exact .inr ⟨hopen, hlt.trans hlt'⟩

/-- A terminal record is the last one. -/
theorem final (h : Later i j) (ht : i.status.isTerminal) : j = i :=
  h.forward.resolve_right fun hf => hf.1 ht

end Later

theorem Moves.later {i j : Invocation} (h : Moves i j)
    (hstarted : i.status = .running → 1 ≤ i.attemptCount) :
    Later i j :=
  ⟨h.sameWork, h.attemptCount_le, .inr ⟨h.not_terminal, h.progress_lt hstarted⟩⟩

/-- Every invocation of `s` has a later record in `t`. -/
def LaterRecords (s t : State) : Prop :=
  ∀ i ∈ s.db.invocations, ∃ j ∈ t.db.invocations, Later i j

theorem laterRecords_step {s t : State} {c : Call} (h : Reachable step init s) (hs : step s c = some t) :
    LaterRecords s t := by
  intro i hi
  have hinv := inv_reachable h
  obtain ⟨j, hj, rfl | hmove⟩ := (step_effect hs).invocation_moves hinv hi
  · exact ⟨j, hj, .refl j⟩
  · exact ⟨j, hj, hmove.later (hinv.numbered.each i hi).started⟩

theorem laterRecords_run {s t : State} (h : Reachable step init s)
    (hrun : Steps step (fun _ _ => True) s t) : LaterRecords s t := by
  refine Steps.relation (fun s i hi => ⟨i, hi, .refl i⟩) ?_ (fun hr _ hs => laterRecords_step hr hs) h hrun
  intro s t u hst htu i hi
  obtain ⟨j, hj, hij⟩ := hst i hi
  obtain ⟨k, hk, hjk⟩ := htu j hj
  exact ⟨k, hk, hij.trans hjk⟩

/-! ## How often the status changes -/

def statusOf (s : State) (id : UUID) : Option InvocationStatus :=
  (s.db.invocations.get id).map (·.status)

/-- The steps of a run at which the status of an invocation changes. -/
def statusChanges (id : UUID) (steps : List (State × Call × State)) : Nat :=
  steps.countP fun p => statusOf p.1 id ≠ statusOf p.2.2 id

theorem statusOf_of_mem {s : State} {i : Invocation} (hi : i ∈ s.db.invocations) :
    statusOf s i.id = some i.status := by
  unfold statusOf
  rw [Table.get_of_mem hi]
  rfl

theorem progress_step {s t : State} {c : Call} (h : Reachable step init s) (hs : step s c = some t)
    {i j : Invocation} (hi : i ∈ s.db.invocations) (hj : j ∈ t.db.invocations) (hid : j.id = i.id) :
    (if statusOf s i.id ≠ statusOf t i.id then 1 else 0) + progress i ≤ progress j := by
  have hinv := inv_reachable h
  obtain ⟨k, hk, hmove⟩ := (step_effect hs).invocation_moves hinv hi
  have hki : k.id = i.id := by
    rcases hmove with rfl | hmove
    · rfl
    · exact hmove.sameWork.id
  obtain rfl : k = j := Table.eq_of_key hk hj (hki.trans hid.symm)
  have hbefore := statusOf_of_mem hi
  have hafter := statusOf_of_mem hk
  rw [hki] at hafter
  rcases hmove with rfl | hmove
  · rw [hbefore, hafter]
    simp
  · have hlt := hmove.progress_lt (hinv.numbered.each i hi).started
    split <;> omega

/-- **Each change of the status costs progress, of which there is a bounded amount.** -/
theorem statusChanges_le {N : Nat} (hN : 1 ≤ N) {calls : List Call} {s : State}
    (h : ReachableBy step (UsesLimit N) init s) {i : Invocation} (hi : i ∈ s.db.invocations)
    (hcalls : ∀ p ∈ trace step s calls, UsesLimit N p.1 p.2.1) :
    statusChanges i.id (trace step s calls) + progress i ≤ 2 * N + 1 := by
  induction calls generalizing s i with
  | nil =>
    have hle := progress_le i
    have hcount := (bounded_reachable hN h).count i hi
    simp only [trace, statusChanges, List.countP_nil]
    omega
  | cons c calls ih =>
    cases hs : step s c with
    | none =>
      have hle := progress_le i
      have hcount := (bounded_reachable hN h).count i hi
      simp only [trace, hs, statusChanges, List.countP_nil]
      omega
    | some t =>
      simp only [trace, hs, List.forall_mem_cons] at hcalls ⊢
      obtain ⟨hc, hcalls⟩ := hcalls
      obtain ⟨j, hj, hij⟩ := laterRecords_step h.reachable hs i hi
      have hrest := ih (h.next hc hs) hj hcalls
      have hone := progress_step h.reachable hs hi hj hij.id
      rw [hij.id] at hrest
      simp only [statusChanges, List.countP_cons, decide_eq_true_eq] at hrest ⊢
      omega

/-- In every run of complete calls an invocation stays the same piece of work and only moves forward,
each call leaving it as it is or making one move, and a terminal record is final. Where every call
goes by one attempt limit, the status changes at most once more often than twice that limit. -/
theorem invocations_move_forward {s : State} (h : Reachable step init s) (calls : List Call)
    {i : Invocation} (hi : i ∈ s.db.invocations) :
    (∀ p ∈ trace step s calls, ∃ k ∈ p.1.db.invocations, ∃ j ∈ p.2.2.db.invocations,
      Later i k ∧ (j = k ∨ Moves k j) ∧ Later k j ∧ (i.status.isTerminal → j = i)) ∧
    ∀ N, 1 ≤ N → ReachableBy step (UsesLimit N) init s →
      (∀ p ∈ trace step s calls, UsesLimit N p.1 p.2.1) →
      statusChanges i.id (trace step s calls) ≤ 2 * N + 1 := by
  refine ⟨fun p hp => ?_, fun N hN hlimit hcalls => ?_⟩
  · have hstart : Reachable step (· = s) s := .start rfl
    obtain ⟨⟨_, rfl, hrun⟩, hs⟩ := hstart.mem_trace hp
    have hreach := h.run hrun
    obtain ⟨k, hk, hik⟩ := laterRecords_run h hrun i hi
    obtain ⟨j, hj, hmove⟩ := (step_effect hs).invocation_moves (inv_reachable hreach) hk
    have hkj : Later k j := by
      rcases hmove with rfl | hmove
      · exact .refl _
      · exact hmove.later ((inv_reachable hreach).numbered.each k hk).started
    exact ⟨k, hk, j, hj, hik, hmove, hkj, fun ht => (hik.trans hkj).final ht⟩
  · have hle := statusChanges_le hN hlimit hi hcalls
    omega

/-- The invocation of the run changes three times: it starts, loses its worker and starts
again. -/
theorem invocations_move_forward_lostWorker : ∃ s, ReachableBy step (UsesLimit 3) init s ∧
    ∃ i ∈ s.db.invocations, statusChanges i.id (trace step s (lostWorkerRun.drop 3)) = 3 ∧
      statusChanges i.id (trace step s (lostWorkerRun.drop 3)) ≤ 2 * 3 + 1 := by
  obtain ⟨s, hr, hp⟩ := reachableBy_of_replayWhere step (lostWorkerRun.take 3)
    (fun s => (s.db.invocations.rows.any fun i =>
        statusChanges i.id (trace step s (lostWorkerRun.drop 3)) = 3) &&
      (trace step s (lostWorkerRun.drop 3)).all fun p => decide (UsesLimit 3 p.1 p.2.1))
    (fun s c (hc : decide (UsesLimit 3 s c) = true) => of_decide_eq_true hc) init_empty
    (by decide +kernel)
  simp only [Bool.and_eq_true, List.any_eq_true, List.all_eq_true, decide_eq_true_eq] at hp
  obtain ⟨⟨i, hi, hchanges⟩, hcalls⟩ := hp
  exact ⟨s, hr, i, hi, hchanges,
    (invocations_move_forward hr.reachable _ hi).2 3 (by decide) hr hcalls⟩

end Serverless.Ledger
