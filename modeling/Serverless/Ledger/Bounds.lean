import Serverless.Ledger.Numbering

/-!
# Consequences of the numbering

No published message is from the future, so the dead ends of `mark_running` and both
unique constraints are out of reach, and with one limit used by both retry paths
nothing is numbered above it.
-/
namespace Serverless.Ledger

open Serverless.Library Serverless.Model

theorem nodup_dispatchNumbers (db : Database) (id : UUID) :
    ((db.dispatchesOf id).map (·.attemptNumber)).Nodup := by
  have hrows : (db.dispatchesOf id).Nodup := (List.Nodup.of_map _ db.dispatches.primary).filter _
  refine hrows.map_on fun d hd e he hn => ?_
  obtain ⟨hd, hdi⟩ := Database.mem_dispatchesOf.mp hd
  obtain ⟨he, hei⟩ := Database.mem_dispatchesOf.mp he
  exact Database.dispatch_eq_of_number hd he (hdi.trans hei.symm) hn

/-- What `mark_running` cannot do with a task whose pair is in the outbox. -/
theorem Numbered.markRunning_safe {db : Database} (h : Numbered db) {task : InvocationTask}
    (hd : ∃ d ∈ db.dispatches, d.invocationId = task.invocationId ∧
      d.attemptNumber = task.attemptNumber)
    (workerId : Option UUID) (attemptId : UUID) (now : Time) :
    (∀ id status, (markRunning db task workerId attemptId now).2 =
        .error (.cannotStart id status) → ∃ st, status = some st ∧ st.isTerminal) ∧
    (∀ i, db.invocations.get task.invocationId = some i → i.status = .running →
      (markRunning db task workerId attemptId now).1 = db) ∧
    (markRunning db task workerId attemptId now).2 ≠ .error (.integrity .uniqueIndex) := by
  obtain ⟨d, hdm, hdi, hdn⟩ := hd
  have hbound : ∀ i, db.invocations.get task.invocationId = some i →
      task.attemptNumber ≤ i.attemptCount + 1 ∧
        (i.status = .running → task.attemptNumber ≤ i.attemptCount) := by
    intro i hget
    have hat := h.each i (Table.get_mem hget)
    have hid : d.invocationId = i.id := hdi.trans (Table.get_key hget).symm
    rw [← hdn]
    exact ⟨hat.bound d hdm hid, hat.boundRunning d hdm hid⟩
  rcases hm : markRunning db task workerId attemptId now with ⟨db', r⟩
  cases markRunning_cases hm with
  | missing hget =>
    obtain ⟨i, hi, hid⟩ := h.dispatchOwner d hdm
    exact absurd (hid.trans hdi) (Table.get_eq_none.mp hget i hi)
  | terminal i hget ht =>
    refine ⟨fun id status he => ?_, fun _ _ _ => rfl, by simp⟩
    cases he
    exact ⟨i.status, rfl, ht⟩
  | superseded | late => exact ⟨by simp, fun _ _ _ => rfl, by simp⟩
  | expired i hget ht hs hdl =>
    refine ⟨by simp, fun j hj hrun => ?_, by simp⟩
    obtain rfl : i = j := Option.some.inj (hget.symm.trans hj)
    have hle := (hbound i hget).2 hrun
    have hlt := hs hrun
    omega
  | future i hget ht hdl hn hs =>
    have hb := hbound i hget
    rcases hs with hs | hs
    · have := hb.2 hs
      omega
    · have := hb.1
      omega
  | rejected i violation hget hs hv =>
    refine ⟨by simp, fun _ _ _ => rfl, fun he => ?_⟩
    cases he
    obtain ⟨x, hx, a, ha, hax⟩ := Table.insert_uniqueIndex hv
    -- the colliding row would be attempt `attempt_count + 1`
    have hpair := hax.trans hx.symm
    simp only [InvocationAttempt.invocationNumber, newAttempt, Option.some.injEq,
      Prod.mk.injEq] at hpair
    have hat := h.each i (Table.get_mem hget)
    have hle := ((hat.numbers (i.attemptCount + 1)).mp
      ⟨a, ha, hpair.1.trans (Table.get_key hget).symm, hpair.2⟩).2
    omega
  | started i attempts hget hs =>
    refine ⟨by simp, fun j hj hrun => ?_, by simp⟩
    obtain rfl : i = j := Option.some.inj (hget.symm.trans hj)
    rcases hs with hs | hs <;> rw [hs] at hrun <;> cases hrun

/-- The retry insert of `mark_finished` never meets an existing number. -/
theorem Numbered.markFinished_safe {db : Database} (h : Numbered db)
    (invocationId attemptId : UUID) (result : RuntimeExecutionResult) (decision : RetryDecision)
    (dispatchId : UUID) (now : Time) :
    (markFinished db invocationId attemptId none result decision dispatchId now).2 ≠
      .error (.integrity .uniqueIndex) := by
  rcases hm : markFinished db invocationId attemptId none result decision dispatchId now
    with ⟨db', r⟩
  cases markFinished_cases hm with
  | raised error hv => simpa using hv
  | retried | completed => simp
  | rejected i a hget hload hinv hi ha hv =>
    obtain ⟨x, hx, d, hd, hdx⟩ := Table.insert_uniqueIndex hv
    have hpair := hdx.trans hx.symm
    simp only [InvocationDispatch.invocationNumber, retryDispatch, Option.some.injEq,
      Prod.mk.injEq] at hpair
    have hid : i.id = invocationId := Table.get_key hget
    have hat := h.each i (Table.get_mem hget)
    have hn := ((hat.running a (mem_of_loadAttempt hload) (hinv.trans hid.symm)).mp ha).2
    have hle := hat.boundRunning d hd (hpair.1.trans hid.symm) hi
    omega

/-- **Outbox numbering.** Dispatch numbers are distinct and at most one ahead of the count, not
even that while the invocation runs. Hence a task made from a published message never makes
`mark_running` raise `InvocationCannotStartError` for a missing or unfinished invocation, never
changes a running invocation, and neither insert can break a unique constraint. -/
theorem outbox_numbering {s : State} (h : Reachable step init s) :
    (∀ i ∈ s.db.invocations,
      ((s.db.dispatchesOf i.id).map (·.attemptNumber)).Nodup ∧
      (∀ d ∈ s.db.dispatchesOf i.id, d.attemptNumber ≤ i.attemptCount + 1) ∧
      (i.status = .running → ∀ d ∈ s.db.dispatchesOf i.id, d.attemptNumber ≤ i.attemptCount)) ∧
    (∀ m ∈ s.stream, ∀ messageId recovered workerId attemptId now,
      let outcome := markRunning s.db (parseInvocationTask messageId m recovered) workerId
        attemptId now
      (∀ id status, outcome.2 = .error (.cannotStart id status) →
        ∃ st, status = some st ∧ st.isTerminal) ∧
      (∀ i, s.db.invocations.get m.invocationId = some i → i.status = .running →
        outcome.1 = s.db) ∧
      outcome.2 ≠ .error (.integrity .uniqueIndex)) ∧
    (∀ invocationId attemptId result decision dispatchId now,
      (markFinished s.db invocationId attemptId none result decision dispatchId now).2 ≠
        .error (.integrity .uniqueIndex)) := by
  have hinv := inv_reachable h
  refine ⟨fun i hi => ⟨nodup_dispatchNumbers s.db i.id, fun d hd => ?_, fun hr d hd => ?_⟩, ?_,
    hinv.numbered.markFinished_safe⟩
  · obtain ⟨hd, hdi⟩ := Database.mem_dispatchesOf.mp hd
    exact (hinv.numbered.each i hi).bound d hd hdi
  · obtain ⟨hd, hdi⟩ := Database.mem_dispatchesOf.mp hd
    exact (hinv.numbered.each i hi).boundRunning d hd hdi hr
  · intro m hm messageId recovered workerId attemptId now
    exact hinv.numbered.markRunning_safe (hinv.published m hm) workerId attemptId now

/-- After `lostWorkerRun` the first message is still on the stream, and a stray copy of it
leaves the running second attempt alone. -/
theorem outbox_numbering_lostWorker : ∃ s, Reachable step init s ∧ ∃ m ∈ s.stream,
    (∃ i, s.db.invocations.get m.invocationId = some i ∧ i.status = .running) ∧
    (markRunning s.db (parseInvocationTask 1 m true) none 9 (seconds 60)).1 = s.db := by
  obtain ⟨s, hs, hp⟩ := reachable_of_replay step lostWorkerRun
    (fun s => s.stream.any fun m =>
      (s.db.invocations.get m.invocationId).any fun i => i.status = .running)
    init_empty (by decide)
  simp only [List.any_eq_true, Option.any_eq_true, decide_eq_true_eq] at hp
  obtain ⟨m, hm, i, hget, hrun⟩ := hp
  have ho := ((outbox_numbering hs).2.1 m hm 1 true none 9 (seconds 60)).2.1
  exact ⟨s, hs, m, hm, ⟨i, hget, hrun⟩, ho i hget hrun⟩

/-- Every retry policy and every recovery of a run uses the limit `N`. -/
def UsesLimit (N : Nat) (_ : State) : Call → Prop
  | .markFinished _ _ _ policy _ _ => policy.maxAttempts = N
  | .recoverStaleWorkers _ maxAttempts _ => maxAttempts = N
  | _ => True

instance (N : Nat) (s : State) (c : Call) : Decidable (UsesLimit N s c) :=
  match c with
  | .markFinished _ _ _ policy _ _ => inferInstanceAs (Decidable (policy.maxAttempts = N))
  | .recoverStaleWorkers _ maxAttempts _ => inferInstanceAs (Decidable (maxAttempts = N))
  | .createFunction _ | .createFunctionVersion _ | .createInvocation .. | .dispatchPending ..
  | .registerWorker .. | .recordHeartbeat .. | .markOffline .. | .markWorkersOffline ..
  | .markRunning .. => inferInstanceAs (Decidable True)

/-- Nothing is numbered above the limit, and what waits may still be started. -/
structure Bounded (N : Nat) (db : Database) : Prop where
  count : ∀ i ∈ db.invocations, i.attemptCount ≤ N
  waiting : ∀ i ∈ db.invocations, i.status = .queued ∨ i.status = .retrying → i.attemptCount < N
  dispatch : ∀ d ∈ db.dispatches, d.attemptNumber ≤ N

namespace Bounded

variable {N : Nat} {db : Database}

theorem started {i : Invocation} {id : UUID} {now : Time}
    {attempts : Table InvocationAttempt.id InvocationAttempt.invocationNumber}
    (h : Bounded N db) (hget : db.invocations.get id = some i)
    (hs : i.status = .queued ∨ i.status = .retrying) :
    Bounded N { db with
      attempts := attempts
      invocations := db.invocations.modify id (·.start (i.attemptCount + 1) now)
        fun _ => ⟨rfl, rfl⟩ } := by
  have hlt := h.waiting i (Table.get_mem hget) hs
  refine ⟨fun j hj => ?_, fun j hj hw => ?_, h.dispatch⟩
  · rcases Table.mem_modify_cases (by exact fun _ => ⟨rfl, rfl⟩) hget hj with rfl | ⟨hj, -⟩
    · exact max_le (h.count i (Table.get_mem hget)) hlt
    · exact h.count j hj
  · rcases Table.mem_modify_cases (by exact fun _ => ⟨rfl, rfl⟩) hget hj with rfl | ⟨hj, -⟩
    · rcases hw with hw | hw <;> cases hw
    · exact h.waiting j hj hw

/-- An update that keeps the count, and leaves the invocation waiting only below the limit. -/
theorem modified {id : UUID} {i : Invocation} {f : Invocation → Invocation}
    (hf : ∀ j, (f j).id = j.id ∧ (f j).ownerKey = j.ownerKey)
    {attempts : Table InvocationAttempt.id InvocationAttempt.invocationNumber}
    {dispatches : Table InvocationDispatch.id InvocationDispatch.invocationNumber}
    (h : Bounded N db) (hget : db.invocations.get id = some i)
    (hc : (f i).attemptCount = i.attemptCount)
    (hw : (f i).status = .queued ∨ (f i).status = .retrying → i.attemptCount < N)
    (hd : ∀ d ∈ dispatches, d.attemptNumber ≤ N) :
    Bounded N { db with
      invocations := db.invocations.modify id f hf
      attempts := attempts
      dispatches := dispatches } := by
  refine ⟨fun j hj => ?_, fun j hj hwj => ?_, hd⟩
  · rcases Table.mem_modify_cases hf hget hj with rfl | ⟨hj, -⟩
    · rw [hc]
      exact h.count i (Table.get_mem hget)
    · exact h.count j hj
  · rcases Table.mem_modify_cases hf hget hj with rfl | ⟨hj, -⟩
    · rw [hc]
      exact hw hwj
    · exact h.waiting j hj hwj

/-- A new invocation has one outbox row, numbered 1. -/
theorem created (hN : 1 ≤ N) (h : Bounded N db) {request : CreateRequest}
    {version : FunctionVersion} {invocationId dispatchId : UUID} {now : Time} {db' : Database}
    (hc : insertInvocation db request version invocationId dispatchId now = .ok db') :
    Bounded N db' := by
  obtain ⟨_, _, hins, hd, rfl⟩ := insertInvocation_ok hc
  refine ⟨fun i him => ?_, fun i him hw => ?_, fun d hdm => ?_⟩
  · rcases (Table.mem_insert hins).mp him with him | rfl
    · exact h.count i him
    · exact Nat.zero_le N
  · rcases (Table.mem_insert hins).mp him with him | rfl
    · exact h.waiting i him hw
    · exact hN
  · rcases (Table.mem_insert hd).mp hdm with hdm | rfl
    · exact h.dispatch d hdm
    · exact hN

theorem marked (h : Bounded N db) (task : InvocationTask) (workerId : Option UUID)
    (attemptId : UUID) (now : Time) : Bounded N (markRunning db task workerId attemptId now).1 := by
  rcases hr : markRunning db task workerId attemptId now with ⟨db', r⟩
  cases markRunning_cases hr with
  | missing | terminal | superseded | future | late | rejected => exact h
  | expired i hget =>
    exact h.modified (f := (·.expire now)) (fun _ => ⟨rfl, rfl⟩) hget rfl
      (fun hw => by rcases hw with hw | hw <;> cases hw) h.dispatch
  | started i attempts hget hs => exact h.started hget hs

/-- A retry is decided below the limit, and it is decided for the latest attempt. -/
theorem finished (hn : Numbered db) (h : Bounded N db) {attempt : InvocationAttempt}
    {attemptId : UUID} (ha : db.attempts.get attemptId = some attempt) {policy : RetryPolicy}
    (hp : policy.maxAttempts = N) (invocationId : UUID) (result : RuntimeExecutionResult)
    (dispatchId : UUID) (now : Time) :
    Bounded N (markFinished db invocationId attemptId none result
      (policy.decide result attempt.attemptNumber) dispatchId now).1 := by
  -- the attempt the decision is about is the one the call loads
  have hload : loadAttempt db attemptId none = some attempt := by
    simpa [loadAttempt] using ha
  rcases hm : markFinished db invocationId attemptId none result
    (policy.decide result attempt.attemptNumber) dispatchId now with ⟨db', r⟩
  cases markFinished_cases hm with
  | raised | rejected => exact h
  | retried i a dispatches hget hla hinv hrun harun hretry hv =>
    obtain rfl : attempt = a := Option.some.inj (hload.symm.trans hla)
    have hlt := (RetryPolicy.decide_shouldRetry hretry).1
    rw [hp] at hlt
    have hnum := (((hn.each i (Table.get_mem hget)).running attempt (Table.get_mem ha)
      (hinv.trans (Table.get_key hget).symm)).mp harun).2
    refine h.modified (f := (·.retry result)) (fun _ => ⟨rfl, rfl⟩) hget rfl
      (fun _ => hnum ▸ hlt) fun d hd => ?_
    rcases (Table.mem_insert hv).mp hd with hd | rfl
    · exact h.dispatch d hd
    · exact hlt
  | completed i a status hget hla hinv hrun harun hretry hs =>
    have ht := attemptToInvocationStatus_isTerminal hs
    refine h.modified (f := (·.complete status result now)) (fun _ => ⟨rfl, rfl⟩) hget rfl
      (fun hw => ?_) h.dispatch
    rcases hw with hw | hw
    · change status = .queued at hw
      exact absurd (hw ▸ ht) (by decide)
    · change status = .retrying at hw
      exact absurd (hw ▸ ht) (by decide)

/-- A recovery leaves an invocation waiting only below the limit. -/
theorem recovered (h : Bounded N db) {staleAfterSeconds : Nat} {locked : List UUID}
    {r : RecoveryRead} (hr : ReadOf db staleAfterSeconds locked r) :
    Bounded N (commitRecovery db r N) := by
  refine ⟨fun i' hi' => ?_, fun i' hi' hw => ?_, ?_⟩
  · obtain ⟨i, him, rfl | ⟨p, -, -, rfl⟩⟩ := hr.mem_invocations hi'
    · exact h.count i' him
    · rw [Invocation.lose_attemptCount]
      exact h.count i him
  · obtain ⟨i, him, rfl | ⟨p, hp, rfl, rfl⟩⟩ := hr.mem_invocations hi'
    · exact h.waiting i' him hw
    · rw [Invocation.lose_status (hr.invocation p hp).2.2] at hw
      rw [Invocation.lose_attemptCount]
      by_contra hge
      rw [if_pos (Nat.le_of_not_lt hge)] at hw
      rcases hw with hw | hw <;> cases hw
  · rw [commitRecovery_dispatches]
    exact h.dispatch

theorem step {s t : State} {c : Call} (hN : 1 ≤ N) (hi : Inv s) (h : Bounded N s.db)
    (hc : UsesLimit N s c) (he : Effect s c t) : Bounded N t.db := by
  cases he with
  | unrelated c db hi ha hd =>
    constructor
    · rw [hi]; exact h.count
    · rw [hi]; exact h.waiting
    · rw [hd]; exact h.dispatch
  | created request version invocationId dispatchId now db hcr => exact h.created hN hcr
  | dispatched limit now outcomes =>
    refine ⟨h.count, h.waiting, fun d hd => ?_⟩
    obtain ⟨row, hrow, -, -, hn, -⟩ := commitDispatches_origin hd
    exact hn ▸ h.dispatch row hrow
  | marked message messageId recovered workerId attemptId now hm => exact h.marked _ _ _ _
  | finished invocationId attemptId attempt result policy dispatchId now ha hr =>
    exact h.finished hi.numbered ha hc _ _ _ _
  | recovered staleAfterSeconds maxAttempts now =>
    obtain rfl : maxAttempts = N := hc
    exact h.recovered (readRecovery_of s.db staleAfterSeconds [] now)

end Bounded

theorem bounded_reachable {N : Nat} (hN : 1 ≤ N) {s : State}
    (h : ReachableBy step (UsesLimit N) init s) : Bounded N s.db := by
  refine h.invariant (I := fun s => Bounded N s.db) ?_ fun hr hb hc hs =>
    Bounded.step hN (inv_reachable hr.reachable) hb hc (step_effect hs)
  rintro s ⟨functions, versions, rfl⟩
  constructor <;> intro x hx <;> exact absurd hx (Table.not_mem_empty x)

/-- **Retries are bounded across both retry paths.** -/
theorem retries_bounded {N : Nat} (hN : 1 ≤ N) {s : State}
    (h : ReachableBy step (UsesLimit N) init s) :
    (∀ i ∈ s.db.invocations, i.attemptCount ≤ N ∧ (s.db.attemptsOf i.id).length ≤ N) ∧
    ∀ d ∈ s.db.dispatches, d.attemptNumber ≤ N := by
  have hb := bounded_reachable hN h
  refine ⟨fun i hi => ⟨hb.count i hi, ?_⟩, hb.dispatch⟩
  have hperm := attemptNumbers_perm (inv_reachable h.reachable).numbered hi
  calc (s.db.attemptsOf i.id).length
      = ((s.db.attemptsOf i.id).map (·.attemptNumber)).length := (List.length_map _).symm
    _ = (List.range' 1 i.attemptCount).length := hperm.length_eq
    _ = i.attemptCount := List.length_range'
    _ ≤ N := hb.count i hi

/-- With the limit 3 the second attempt of `lostWorkerRun` is allowed. -/
theorem retries_bounded_lostWorker : ∃ s, ReachableBy step (UsesLimit 3) init s ∧
    ∃ i ∈ s.db.invocations, i.attemptCount = 2 ∧ (s.db.attemptsOf i.id).length ≤ 3 := by
  obtain ⟨s, hr, hp⟩ := reachableBy_of_replayWhere step lostWorkerRun
    (fun s => s.db.invocations.rows.any fun i => i.attemptCount = 2)
    (fun s c (hc : decide (UsesLimit 3 s c) = true) => of_decide_eq_true hc) init_empty (by decide)
  simp only [List.any_eq_true, decide_eq_true_eq] at hp
  obtain ⟨i, hi, hcount⟩ := hp
  exact ⟨s, hr, i, hi, hcount, ((retries_bounded (by decide) hr).1 i hi).2⟩

end Serverless.Ledger
