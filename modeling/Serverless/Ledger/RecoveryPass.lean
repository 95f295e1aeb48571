import Serverless.Ledger.Numbering

/-!
# One recovery pass

What a complete call of `recover_stale_workers` does to a state that complete calls can reach.
There every running attempt is the only one of a running invocation, so the loop skips none of
the attempts it has found.
-/
namespace Serverless.Ledger

open Serverless.Library Serverless.Model

/-- A worker that the call takes for lost. -/
def Stale (db : Database) (cutoff : Time) (w : Worker) : Prop :=
  w ∈ db.workers ∧ w.lastHeartbeat < cutoff ∧ w.status ≠ .offline

/-- A running attempt of such a worker. -/
def Lost (db : Database) (cutoff : Time) (a : InvocationAttempt) : Prop :=
  a ∈ db.attempts ∧ a.status = .running ∧ ∃ w, Stale db cutoff w ∧ a.workerId = some w.id

theorem mem_stale {db : Database} {cutoff : Time} {w : Worker} :
    w ∈ db.findStaleWorkers cutoff [] ↔ Stale db cutoff w := by
  rw [mem_findStaleWorkers, Stale]
  simp

theorem mem_lost {db : Database} {cutoff : Time} {a : InvocationAttempt} :
    a ∈ db.findRunningAttempts ((db.findStaleWorkers cutoff []).map (·.id)) ↔ Lost db cutoff a := by
  rw [mem_findRunningAttempts, Lost]
  constructor
  · rintro ⟨ha, ⟨k, hk, hworker⟩, hrun⟩
    obtain ⟨w, hw, rfl⟩ := List.mem_map.mp hk
    exact ⟨ha, hrun, w, mem_stale.mp hw, hworker⟩
  · rintro ⟨ha, hrun, w, hw, hworker⟩
    exact ⟨ha, ⟨w.id, List.mem_map_of_mem (mem_stale.mpr hw), hworker⟩, hrun⟩

/-- The loop keeps every attempt it is given if each has its own running invocation. -/
theorem lostAttempts_all (db : Database) (attempts : List InvocationAttempt)
    (hrun : ∀ a ∈ attempts, ∃ i, db.invocations.get a.invocationId = some i ∧ i.status = .running)
    (hnodup : (attempts.map (·.invocationId)).Nodup) :
    (db.lostAttempts attempts).map (·.1) = attempts := by
  induction attempts using List.reverseRecOn with
  | nil => rfl
  | append_singleton attempts a ih =>
    rw [List.map_append, List.nodup_append] at hnodup
    obtain ⟨hnodup, -, hdisjoint⟩ := hnodup
    have hfirst := ih (fun b hb => hrun b (List.mem_append_left _ hb)) hnodup
    obtain ⟨i, hget, hi⟩ := hrun a (by simp)
    have hfrom := lostAttempts_from db attempts
    have hnew : i.id ∉ (db.lostAttempts attempts).map (·.2.id) := by
      intro hmem
      obtain ⟨p, hp, hid⟩ := List.mem_map.mp hmem
      have hkey := Table.get_key (hfrom.loaded p hp)
      refine hdisjoint p.1.invocationId (List.mem_map_of_mem (hfrom.attempt p hp)) a.invocationId (by simp) ?_
      rw [← hkey, hid, Table.get_key hget]
    have hstep : db.lostAttempts (attempts ++ [a]) = db.lostAttempts attempts ++ [(a, i)] := by
      simp only [Database.lostAttempts, List.foldl_append, List.foldl_cons, List.foldl_nil, hget]
      rw [if_neg]
      rintro (h | h)
      · exact h hi
      · exact hnew h
    rw [hstep, List.map_append, hfirst]
    rfl

/-- In a numbered database a running attempt is the last one of a running invocation. -/
theorem Numbered.running_invocation {db : Database} (h : Numbered db) {a : InvocationAttempt}
    (ha : a ∈ db.attempts) (hrun : a.status = .running) :
    ∃ i, db.invocations.get a.invocationId = some i ∧ i.status = .running ∧
      a.attemptNumber = i.attemptCount := by
  obtain ⟨i, hi, hid⟩ := h.attemptOwner a ha
  obtain ⟨hstatus, hnumber⟩ := ((h.each i hi).running a ha hid.symm).mp hrun
  exact ⟨i, hid ▸ Table.get_of_mem hi, hstatus, hnumber⟩

theorem Numbered.running_unique {db : Database} (h : Numbered db) {a b : InvocationAttempt}
    (ha : a ∈ db.attempts) (hb : b ∈ db.attempts) (hra : a.status = .running) (hrb : b.status = .running)
    (hid : a.invocationId = b.invocationId) : a = b := by
  obtain ⟨i, hgi, -, hna⟩ := h.running_invocation ha hra
  obtain ⟨j, hgj, -, hnb⟩ := h.running_invocation hb hrb
  rw [hid, hgj] at hgi
  cases hgi
  exact Database.attempt_eq_of_number ha hb hid (hna.trans hnb.symm)

theorem Numbered.nodup_findRunningAttempts {db : Database} (h : Numbered db) (ids : List UUID) :
    ((db.findRunningAttempts ids).map (·.invocationId)).Nodup := by
  have hrows : (db.findRunningAttempts ids).Nodup :=
    (List.perm_insertionSort _ _).nodup_iff.mpr ((List.Nodup.of_map _ db.attempts.primary).filter _)
  refine hrows.map_on fun a ha b hb hid => ?_
  obtain ⟨ha, -, hra⟩ := mem_findRunningAttempts.mp ha
  obtain ⟨hb, -, hrb⟩ := mem_findRunningAttempts.mp hb
  exact h.running_unique ha hb hra hrb hid

/-- The attempts that the pass fails are the running attempts of the stale workers, all of them. -/
theorem Numbered.mem_read_lost {db : Database} (h : Numbered db) (staleAfterSeconds : Nat) (now : Time)
    {a : InvocationAttempt} :
    (∃ p ∈ (readRecovery db staleAfterSeconds [] now).lost, p.1 = a) ↔
      Lost db (now - seconds staleAfterSeconds) a := by
  have hrun : ∀ b ∈ db.findRunningAttempts
      ((db.findStaleWorkers (now - seconds staleAfterSeconds) []).map (·.id)),
      ∃ i, db.invocations.get b.invocationId = some i ∧ i.status = .running := by
    intro b hb
    obtain ⟨hb, -, hrun⟩ := mem_findRunningAttempts.mp hb
    obtain ⟨i, hget, hi, -⟩ := h.running_invocation hb hrun
    exact ⟨i, hget, hi⟩
  rw [← mem_lost, ← lostAttempts_all db _ hrun (h.nodup_findRunningAttempts _)]
  simp [readRecovery]

/-- The commit of the pass is kept if the duration of every lost attempt fits its column. -/
theorem Numbered.fits_iff {db : Database} (h : Numbered db) (staleAfterSeconds : Nat) (now : Time) :
    (readRecovery db staleAfterSeconds [] now).Fits ↔
      ∀ a, Lost db (now - seconds staleAfterSeconds) a →
        FitsInteger (durationMs a.startedAt now) := by
  constructor
  · intro hfits a ha
    obtain ⟨p, hp, rfl⟩ := (h.mem_read_lost staleAfterSeconds now).mpr ha
    exact hfits p hp
  · intro hlost p hp
    exact hlost p.1 ((h.mem_read_lost staleAfterSeconds now).mp ⟨p, hp, rfl⟩)

/-- A call whose commit is kept, as its two halves. -/
theorem recoverStaleWorkers_of_fits {db : Database} {staleAfterSeconds : Nat} {now : Time}
    (h : (readRecovery db staleAfterSeconds [] now).Fits) (maxAttempts : Nat) :
    recoverStaleWorkers db staleAfterSeconds maxAttempts now =
      (flushRecovery db (readRecovery db staleAfterSeconds [] now) maxAttempts,
        .ok ((readRecovery db staleAfterSeconds [] now).summary maxAttempts)) := by
  refine Prod.ext ?_ ?_
  · rw [recoverStaleWorkers_db, commitRecovery_of_fits h]
  · rw [recoverStaleWorkers_result, if_pos h]

/-- The two lists of a summary that an invocation can be in, by its count. -/
def listedIn (summary : RecoverySummary) (exhausted : Bool) : List UUID :=
  if exhausted then summary.failedInvocationIds else summary.retriedInvocationIds

/-- What one pass does: rows that are not the pass's business stay, the lost attempts are failed,
and each of their invocations is failed or retried by its count and listed once, accordingly. -/
structure OnePass (db db' : Database) (summary : RecoverySummary) (cutoff : Time)
    (maxAttempts : Nat) : Prop where
  functions : db'.functions = db.functions
  versions : db'.versions = db.versions
  dispatches : db'.dispatches = db.dispatches
  workers : db'.workers = db.workers
  attemptIndex : db'.attempts.index = db.attempts.index
  invocationIndex : db'.invocations.index = db.invocations.index
  otherAttempts : ∀ a ∈ db.attempts, ¬ Lost db cutoff a → a ∈ db'.attempts
  otherInvocations : ∀ i ∈ db.invocations, (∀ a, Lost db cutoff a → a.invocationId ≠ i.id) →
    i ∈ db'.invocations
  failedAttempts : ∀ a, Lost db cutoff a → ∃ a' ∈ db'.attempts, a'.id = a.id ∧ a'.status = .failed
  cleared : ∀ a ∈ db'.attempts, ¬ Lost db' cutoff a
  settled : ∀ a, Lost db cutoff a → ∃ i ∈ db.invocations, i.id = a.invocationId ∧
    (∃ i' ∈ db'.invocations, i'.id = i.id ∧ i'.attemptCount = i.attemptCount ∧
      i'.status = if maxAttempts ≤ i.attemptCount then .failed else .retrying) ∧
    (listedIn summary (maxAttempts ≤ i.attemptCount)).count i.id = 1 ∧
    i.id ∉ listedIn summary (¬ maxAttempts ≤ i.attemptCount)
  listed : ∀ exhausted, ∀ id ∈ listedIn summary exhausted, ∃ a, Lost db cutoff a ∧ a.invocationId = id
  reported : ∀ id, id ∈ summary.staleWorkerIds ↔ ∃ w, Stale db cutoff w ∧ w.id = id

section Pass

variable {db : Database} {staleAfterSeconds maxAttempts : Nat} {now : Time}

/-- A pair of the loop, with what the summary says of it. -/
theorem count_listed {r : RecoveryRead} (hr : ReadOf db staleAfterSeconds [] r)
    {p : InvocationAttempt × Invocation} (hp : p ∈ r.lost) :
    (listedIn (r.summary maxAttempts) (maxAttempts ≤ p.2.attemptCount)).count p.2.id = 1 ∧
      p.2.id ∉ listedIn (r.summary maxAttempts) (¬ maxAttempts ≤ p.2.attemptCount) := by
  have hsame : ∀ q ∈ r.lost, q.2.id = p.2.id → q.2 = p.2 := fun q hq hid =>
    Table.eq_of_key (hr.invocation q hq).1 (hr.invocation p hp).1 hid
  have hnodup (f : InvocationAttempt × Invocation → Bool) : ((r.lost.filter f).map (·.2.id)).Nodup :=
    hr.nodup.sublist (List.filter_sublist.map _)
  by_cases hmax : maxAttempts ≤ p.2.attemptCount
  · simp only [listedIn, hmax, RecoveryRead.summary, decide_true, not_true, decide_false, if_true,
      Bool.false_eq_true, if_false]
    refine ⟨List.count_eq_one_of_mem (hnodup _) (List.mem_map.mpr ⟨p, ?_, rfl⟩), fun hmem => ?_⟩
    · simpa [hp] using hmax
    · obtain ⟨q, hq, hid⟩ := List.mem_map.mp hmem
      obtain ⟨hq, hlt⟩ := List.mem_filter.mp hq
      rw [hsame q hq hid] at hlt
      have := of_decide_eq_true hlt
      omega
  · simp only [listedIn, hmax, RecoveryRead.summary, decide_false, not_false_iff, decide_true, if_true,
      Bool.false_eq_true, if_false]
    refine ⟨List.count_eq_one_of_mem (hnodup _) (List.mem_map.mpr ⟨p, ?_, rfl⟩), fun hmem => ?_⟩
    · simpa [hp] using hmax
    · obtain ⟨q, hq, hid⟩ := List.mem_map.mp hmem
      obtain ⟨hq, hle⟩ := List.mem_filter.mp hq
      rw [hsame q hq hid] at hle
      exact hmax (of_decide_eq_true hle)

/-- Only pairs of the loop are listed. -/
theorem mem_listedIn {r : RecoveryRead} {exhausted : Bool} {id : UUID}
    (h : id ∈ listedIn (r.summary maxAttempts) exhausted) : ∃ p ∈ r.lost, p.2.id = id := by
  cases exhausted with
  | true =>
    obtain ⟨p, hp, hid⟩ := List.mem_map.mp h
    exact ⟨p, (List.mem_filter.mp hp).1, hid⟩
  | false =>
    obtain ⟨p, hp, hid⟩ := List.mem_map.mp h
    exact ⟨p, (List.mem_filter.mp hp).1, hid⟩

/-- Every attempt row after the flush, from the row before it. -/
theorem attempt_after {r : RecoveryRead} (hr : ReadOf db staleAfterSeconds [] r) (maxAttempts : Nat)
    {a : InvocationAttempt} (ha : a ∈ db.attempts) :
    ∃ a' ∈ (flushRecovery db r maxAttempts).attempts, a'.id = a.id ∧
      ((a' = a ∧ ∀ p ∈ r.lost, p.1 ≠ a) ∨ ∃ p ∈ r.lost, p.1 = a ∧ a' = a.lose r.now a) := by
  obtain ⟨a', ha', hid, -, -⟩ := flushRecovery_attempt_mem r maxAttempts ha
  refine ⟨a', ha', hid, ?_⟩
  obtain ⟨a₀, ha₀, ⟨rfl, hnot⟩ | ⟨p, hp, rfl, rfl⟩⟩ := hr.flushed_attempts ha'
  · have he : a' = a := Table.eq_of_key ha₀ ha hid
    exact .inl ⟨he, fun p hp hpa => hnot p hp (by rw [hpa, he])⟩
  · have he : p.1 = a := Table.eq_of_key ha₀ ha hid
    exact .inr ⟨p, hp, he, by rw [he]⟩

/-- Every invocation row after the flush, from the row before it. -/
theorem invocation_after {r : RecoveryRead} (hr : ReadOf db staleAfterSeconds [] r) (maxAttempts : Nat)
    {i : Invocation} (hi : i ∈ db.invocations) :
    ∃ i' ∈ (flushRecovery db r maxAttempts).invocations, i'.id = i.id ∧
      ((i' = i ∧ ∀ p ∈ r.lost, p.2 ≠ i) ∨ ∃ p ∈ r.lost, p.2 = i ∧ i' = i.lose maxAttempts r.now i) := by
  obtain ⟨i', hi', hid⟩ := flushRecovery_invocation_mem r maxAttempts hi
  refine ⟨i', hi', hid, ?_⟩
  obtain ⟨i₀, hi₀, ⟨rfl, hnot⟩ | ⟨p, hp, rfl, rfl⟩⟩ := hr.flushed_invocations hi'
  · have he : i' = i := Table.eq_of_key hi₀ hi hid
    exact .inl ⟨he, fun p hp hpi => hnot p hp (by rw [hpi, he])⟩
  · rw [Invocation.lose_id] at hid
    have he : p.2 = i := Table.eq_of_key hi₀ hi hid
    exact .inr ⟨p, hp, he, by rw [he]⟩

/-- After the flush no attempt is lost any more: the lost ones are failed, the others were not
lost before, and worker rows have not changed. -/
theorem not_lost_after {r : RecoveryRead} {cutoff : Time} (hr : ReadOf db staleAfterSeconds [] r)
    (hlost : ∀ a, (∃ p ∈ r.lost, p.1 = a) ↔ Lost db cutoff a) (maxAttempts : Nat) {a' : InvocationAttempt}
    (ha' : a' ∈ (flushRecovery db r maxAttempts).attempts) :
    ¬ Lost (flushRecovery db r maxAttempts) cutoff a' := by
  rintro ⟨-, hrun, w, hw, hworker⟩
  obtain ⟨a, ha, ⟨rfl, hnot⟩ | ⟨p, hp, rfl, rfl⟩⟩ := hr.flushed_attempts ha'
  · obtain ⟨p, hp, rfl⟩ := (hlost a').mpr ⟨ha, hrun, w, hw, hworker⟩
    exact hnot p hp rfl
  · rw [InvocationAttempt.lose_status (hr.attempt p hp).2.1] at hrun
    cases hrun

theorem Numbered.onePass (h : Numbered db) (staleAfterSeconds maxAttempts : Nat) (now : Time) :
    OnePass db (flushRecovery db (readRecovery db staleAfterSeconds [] now) maxAttempts)
      ((readRecovery db staleAfterSeconds [] now).summary maxAttempts)
      (now - seconds staleAfterSeconds) maxAttempts := by
  have hr := readRecovery_of db staleAfterSeconds [] now
  have hlost := fun a => h.mem_read_lost (a := a) staleAfterSeconds now
  have hreported (id : UUID) : id ∈ (readRecovery db staleAfterSeconds [] now).staleWorkerIds ↔
      ∃ w, Stale db (now - seconds staleAfterSeconds) w ∧ w.id = id := by
    simp only [RecoveryRead.staleWorkerIds, readRecovery, List.mem_map, mem_stale]
  generalize readRecovery db staleAfterSeconds [] now = r at hr hlost hreported
  constructor
  case functions => rfl
  case versions => rfl
  case dispatches => rfl
  case workers => rfl
  case attemptIndex => exact Table.index_flush (by exact fun _ _ => ⟨rfl, rfl⟩) _
  case invocationIndex =>
    exact Table.index_flush
      (by exact fun _ _ => ⟨Invocation.lose_id _ _ _ _, Invocation.lose_ownerKey _ _ _ _⟩) _
  case otherAttempts =>
    intro a ha hnot
    obtain ⟨a', ha', -, ⟨rfl, -⟩ | ⟨p, hp, hpa, -⟩⟩ := attempt_after hr maxAttempts ha
    · exact ha'
    · exact absurd ((hlost a).mp ⟨p, hp, hpa⟩) hnot
  case otherInvocations =>
    intro i hi hnot
    obtain ⟨i', hi', -, ⟨rfl, -⟩ | ⟨p, hp, hpi, -⟩⟩ := invocation_after hr maxAttempts hi
    · exact hi'
    · refine absurd ?_ (hnot p.1 ((hlost p.1).mp ⟨p, hp, rfl⟩))
      rw [← (hr.invocation p hp).2.1, hpi]
  case failedAttempts =>
    intro a ha
    obtain ⟨p, hp, rfl⟩ := (hlost a).mpr ha
    obtain ⟨a', ha', hid, ⟨-, hnot⟩ | ⟨q, hq, hqp, rfl⟩⟩ := attempt_after hr maxAttempts ha.1
    · exact absurd rfl (hnot p hp)
    · exact ⟨_, ha', hid, InvocationAttempt.lose_status (hr.attempt p hp).2.1 _ _⟩
  case cleared => exact fun a ha => not_lost_after hr hlost maxAttempts ha
  case settled =>
    intro a ha
    obtain ⟨p, hp, rfl⟩ := (hlost a).mpr ha
    obtain ⟨hi, hid, hrun⟩ := hr.invocation p hp
    refine ⟨p.2, hi, hid, ?_, count_listed hr hp⟩
    obtain ⟨i', hi', hid', ⟨-, hnot⟩ | ⟨q, -, -, rfl⟩⟩ := invocation_after hr maxAttempts hi
    · exact absurd rfl (hnot p hp)
    · exact ⟨_, hi', hid', Invocation.lose_attemptCount _ _ _ _, Invocation.lose_status hrun _ _ _⟩
  case listed =>
    intro exhausted id hmem
    obtain ⟨p, hp, rfl⟩ := mem_listedIn hmem
    exact ⟨p.1, (hlost p.1).mp ⟨p, hp, rfl⟩, (hr.invocation p hp).2.1.symm⟩
  case reported => exact hreported

/-- A pass over a database in which nothing is lost: it only reports. -/
theorem recoverStaleWorkers_quiet (h : ∀ a ∈ db.attempts, ¬ Lost db (now - seconds staleAfterSeconds) a) :
    recoverStaleWorkers db staleAfterSeconds maxAttempts now =
      (db, .ok
        { staleWorkerIds := (db.findStaleWorkers (now - seconds staleAfterSeconds) []).map (·.id)
          staleConsumerNames :=
            (db.findStaleWorkers (now - seconds staleAfterSeconds) []).filterMap (·.consumerName)
          retriedInvocationIds := []
          failedInvocationIds := [] }) := by
  have hnone : (readRecovery db staleAfterSeconds [] now).lost = [] := by
    apply List.eq_nil_iff_forall_not_mem.mpr
    intro p hp
    obtain ⟨ha, hrun, k, hk, hworker⟩ := (readRecovery_of db staleAfterSeconds [] now).attempt p hp
    obtain ⟨w, hw, rfl⟩ := List.mem_map.mp hk
    exact h p.1 ha ⟨ha, hrun, w, mem_stale.mp hw, hworker⟩
  rw [recoverStaleWorkers_of_fits (RecoveryRead.fits_of_nil hnone)]
  simp only [flushRecovery, RecoveryRead.summary, hnone, Table.flush_nil]
  rfl

end Pass

/-- The call returns, it has done its job, and a second one with the same cutoff reports the same
workers and nothing else. -/
structure Recovers (db : Database) (staleAfterSeconds maxAttempts : Nat) (now : Time)
    (summary : RecoverySummary) : Prop where
  returned : (recoverStaleWorkers db staleAfterSeconds maxAttempts now).2 = .ok summary
  pass : OnePass db (recoverStaleWorkers db staleAfterSeconds maxAttempts now).1 summary
    (now - seconds staleAfterSeconds) maxAttempts
  again : ∀ (staleAfterSeconds' maxAttempts' : Nat) (now' : Time),
    now' - seconds staleAfterSeconds' = now - seconds staleAfterSeconds →
    recoverStaleWorkers (recoverStaleWorkers db staleAfterSeconds maxAttempts now).1
        staleAfterSeconds' maxAttempts' now' =
      ((recoverStaleWorkers db staleAfterSeconds maxAttempts now).1,
        .ok { summary with
          retriedInvocationIds := []
          failedInvocationIds := [] })

theorem Numbered.recovers {db : Database} (h : Numbered db) {staleAfterSeconds : Nat} {now : Time}
    (hfits : (readRecovery db staleAfterSeconds [] now).Fits) (maxAttempts : Nat) :
    Recovers db staleAfterSeconds maxAttempts now
      ((readRecovery db staleAfterSeconds [] now).summary maxAttempts) := by
  have hcall := recoverStaleWorkers_of_fits hfits maxAttempts
  have hpass := h.onePass staleAfterSeconds maxAttempts now
  refine ⟨congrArg Prod.snd hcall, ?_, fun staleAfterSeconds' maxAttempts' now' hcutoff => ?_⟩
  · rw [hcall]
    exact hpass
  · have hquiet := hpass.cleared
    rw [← hcutoff] at hquiet
    rw [hcall, recoverStaleWorkers_quiet hquiet, hcutoff]
    rfl

/-- **From a reachable state, one pass does its job if and only if the column takes the duration of
every lost attempt.** -/
theorem recovery_pass {s : State} (h : Reachable step init s) (staleAfterSeconds maxAttempts : Nat)
    (now : Time) :
    (∃ summary, Recovers s.db staleAfterSeconds maxAttempts now summary) ↔
      ∀ a, Lost s.db (now - seconds staleAfterSeconds) a →
        FitsInteger (durationMs a.startedAt now) := by
  have hn := (inv_reachable h).numbered
  rw [← hn.fits_iff]
  constructor
  · rintro ⟨summary, hrec⟩
    exact (recoverStaleWorkers_ok hrec.returned).1
  · intro hfits
    exact ⟨_, hn.recovers hfits maxAttempts⟩

/-- The first worker of `lostWorkerRun` is lost while it runs the only attempt. -/
theorem recovery_pass_lostWorker : ∃ s summary, Reachable step init s ∧
    Recovers s.db 15 3 (seconds 20) summary ∧ summary.retriedInvocationIds = [3] ∧
    ∃ a, Lost s.db (seconds 20 - seconds 15) a ∧ a.invocationId = 3 := by
  obtain ⟨s, hs, hp⟩ := reachable_of_replay step (lostWorkerRun.take 6)
    (fun s => (readRecovery s.db 15 [] (seconds 20)).Fits ∧
      ((readRecovery s.db 15 [] (seconds 20)).summary 3).retriedInvocationIds = [3])
    init_empty (by decide)
  obtain ⟨hfits, hlisted⟩ := of_decide_eq_true hp
  have hlost := ((inv_reachable hs).numbered.fits_iff 15 (seconds 20)).mp hfits
  obtain ⟨summary, hrec⟩ := (recovery_pass hs 15 3 (seconds 20)).mpr hlost
  obtain ⟨-, rfl⟩ := recoverStaleWorkers_ok hrec.returned
  refine ⟨s, _, hs, hrec, hlisted, hrec.pass.listed false 3 ?_⟩
  simp only [listedIn, Bool.false_eq_true, if_false, hlisted, List.mem_singleton]

/-- 25 days after the start of the attempt the commit is refused: the call raises, and the attempt
of the lost worker is still `RUNNING`. -/
theorem recovery_pass_refused : ∃ s a, Reachable step init s ∧
    recoverStaleWorkers s.db 15 3 (seconds 2160000) = (s.db, .error .refused) ∧
    Lost s.db (seconds 2160000 - seconds 15) a ∧
    ¬ ∃ summary, Recovers s.db 15 3 (seconds 2160000) summary := by
  obtain ⟨s, hs, hp⟩ := reachable_of_replay step (lostWorkerRun.take 6)
    (fun s => ¬ (readRecovery s.db 15 [] (seconds 2160000)).Fits) init_empty (by decide)
  have hrefused : ¬ (readRecovery s.db 15 [] (seconds 2160000)).Fits := of_decide_eq_true hp
  have hcall : recoverStaleWorkers s.db 15 3 (seconds 2160000) = (s.db, .error .refused) := by
    refine Prod.ext ?_ ?_
    · rw [recoverStaleWorkers_db, commitRecovery_refused hrefused]
    · rw [recoverStaleWorkers_result, if_neg hrefused]
  have hn := (inv_reachable hs).numbered
  obtain ⟨p, hp⟩ : ∃ p, p ∈ (readRecovery s.db 15 [] (seconds 2160000)).lost := by
    by_contra hnone
    exact hrefused fun p hp => absurd ⟨p, hp⟩ hnone
  refine ⟨s, p.1, hs, hcall, (hn.mem_read_lost 15 _).mp ⟨p, hp, rfl⟩, ?_⟩
  rintro ⟨summary, hrec⟩
  have hreturned := hrec.returned
  rw [hcall] at hreturned
  cases hreturned

end Serverless.Ledger
