import Mathlib.Data.List.Sort
import Serverless.Model.InvocationState

/-!
# Stale worker detection and invocation recovery

`worker/app/services/recovery.py`. `recover_stale_workers` reads first and writes at
its commit, so it is modelled as `readRecovery`, which says what the session loaded,
and `commitRecovery`, which flushes the columns the loop changed; the call itself
runs the two back to back. `duration_ms` is an `Integer` column, and a commit that would put
a longer duration in it is refused as a whole. Rows that compare equal under an `ORDER BY` come in table
order.
-/
namespace Serverless.Model

open Serverless.Library

structure RecoverySummary where
  staleWorkerIds : List UUID
  staleConsumerNames : List String
  retriedInvocationIds : List UUID
  failedInvocationIds : List UUID
  deriving DecidableEq

/-- How `recover_stale_workers` ends without a summary. -/
inductive RecoveryError where
  | refused
  deriving DecidableEq

namespace Database

/-- `find_stale_workers`; `locked` are the rows another transaction holds, which
`SKIP LOCKED` leaves out. -/
def findStaleWorkers (db : Database) (cutoff : Time) (locked : List UUID) : List Worker :=
  (db.workers.rows.filter fun w =>
      w.lastHeartbeat < cutoff ∧ w.status ≠ .offline ∧ w.id ∉ locked).insertionSort
    fun v w => v.lastHeartbeat ≤ w.lastHeartbeat

def findRunningAttempts (db : Database) (workerIds : List UUID) : List InvocationAttempt :=
  (db.attempts.rows.filter fun a =>
      a.workerId ∈ workerIds.map some ∧ a.status = .running).insertionSort
    fun a b => a.startedAt ≤ b.startedAt

/-- The loop over the running attempts, up to what it loads: the attempts that are failed,
each with the invocation object it is failed against. `session.get` returns the one object
the session has for an invocation, so an invocation that an earlier turn moved out of
`RUNNING` is skipped like one that was never `RUNNING`. -/
def lostAttempts (db : Database) (attempts : List InvocationAttempt) :
    List (InvocationAttempt × Invocation) :=
  attempts.foldl
    (fun lost attempt =>
      match db.invocations.get attempt.invocationId with
      | none => lost
      | some invocation =>
        if invocation.status ≠ .running ∨ invocation.id ∈ lost.map (·.2.id) then lost
        else lost ++ [(attempt, invocation)])
    []

end Database

/-- The attempt columns the loop changes. -/
def InvocationAttempt.lose (loaded : InvocationAttempt) (now : Time) (row : InvocationAttempt) :
    InvocationAttempt :=
  { row with
    status := changed loaded.status .failed row.status
    completedAt := changed loaded.completedAt (some now) row.completedAt
    durationMs := changed loaded.durationMs (some (Model.durationMs loaded.startedAt now))
      row.durationMs
    errorType := changed loaded.errorType (some "WorkerLostError") row.errorType
    errorMessage := changed loaded.errorMessage
      (some s!"Worker {optionalStr loaded.workerId} stopped heartbeating before ACK")
      row.errorMessage }

/-- The invocation columns the loop changes. -/
def Invocation.lose (loaded : Invocation) (maxAttempts : Nat) (now : Time) (row : Invocation) :
    Invocation :=
  if maxAttempts ≤ loaded.attemptCount then
    { row with
      status := changed loaded.status .failed row.status
      completedAt := changed loaded.completedAt (some now) row.completedAt
      errorType := changed loaded.errorType (some "WorkerLostError") row.errorType
      errorMessage := changed loaded.errorMessage
        (some "Invocation attempts exhausted after worker loss") row.errorMessage }
  else
    { row with
      status := changed loaded.status .retrying row.status
      startedAt := changed loaded.startedAt none row.startedAt
      errorType := changed loaded.errorType (some "WorkerLostError") row.errorType
      errorMessage := changed loaded.errorMessage
        (some "Invocation will be retried after worker loss") row.errorMessage }

theorem Invocation.lose_id (loaded : Invocation) (maxAttempts : Nat) (now : Time)
    (row : Invocation) : (loaded.lose maxAttempts now row).id = row.id := by
  unfold Invocation.lose
  split <;> rfl

theorem Invocation.lose_ownerKey (loaded : Invocation) (maxAttempts : Nat) (now : Time)
    (row : Invocation) : (loaded.lose maxAttempts now row).ownerKey = row.ownerKey := by
  unfold Invocation.lose
  split <;> rfl

theorem Invocation.lose_attemptCount (loaded : Invocation) (maxAttempts : Nat) (now : Time)
    (row : Invocation) : (loaded.lose maxAttempts now row).attemptCount = row.attemptCount := by
  unfold Invocation.lose
  split <;> rfl

theorem Invocation.lose_result (loaded : Invocation) (maxAttempts : Nat) (now : Time)
    (row : Invocation) : (loaded.lose maxAttempts now row).resultInline = row.resultInline ∧
      (loaded.lose maxAttempts now row).resultRef = row.resultRef := by
  unfold Invocation.lose
  split <;> exact ⟨rfl, rfl⟩

/-- What was agreed when the invocation was accepted is not touched. -/
theorem Invocation.lose_terms (loaded : Invocation) (maxAttempts : Nat) (now : Time)
    (row : Invocation) :
    (loaded.lose maxAttempts now row).functionVersionId = row.functionVersionId ∧
      (loaded.lose maxAttempts now row).ownerId = row.ownerId ∧
      (loaded.lose maxAttempts now row).queuedAt = row.queuedAt ∧
      (loaded.lose maxAttempts now row).deadlineAt = row.deadlineAt := by
  unfold Invocation.lose
  split <;> exact ⟨rfl, rfl, rfl, rfl⟩

/-- The status a recovered row ends in, whatever it held when the recovery commits. -/
theorem Invocation.lose_status {loaded : Invocation} (h : loaded.status = .running)
    (maxAttempts : Nat) (now : Time) (row : Invocation) :
    (loaded.lose maxAttempts now row).status =
      if maxAttempts ≤ loaded.attemptCount then .failed else .retrying := by
  unfold Invocation.lose
  split
  · exact changed_of_ne (by rw [h]; decide) _
  · exact changed_of_ne (by rw [h]; decide) _

theorem InvocationAttempt.lose_status {loaded : InvocationAttempt} (h : loaded.status = .running)
    (now : Time) (row : InvocationAttempt) : (loaded.lose now row).status = .failed :=
  changed_of_ne (by rw [h]; decide) _

/-- What a recovery transaction has read when it comes to its commit. -/
structure RecoveryRead where
  now : Time
  staleWorkers : List Worker
  lost : List (InvocationAttempt × Invocation)

namespace RecoveryRead

def staleWorkerIds (r : RecoveryRead) : List UUID := r.staleWorkers.map (·.id)

def staleConsumerNames (r : RecoveryRead) : List String := r.staleWorkers.filterMap (·.consumerName)

def summary (r : RecoveryRead) (maxAttempts : Nat) : RecoverySummary where
  staleWorkerIds := r.staleWorkerIds
  staleConsumerNames := r.staleConsumerNames
  retriedInvocationIds := (r.lost.filter fun p => p.2.attemptCount < maxAttempts).map (·.2.id)
  failedInvocationIds := (r.lost.filter fun p => maxAttempts ≤ p.2.attemptCount).map (·.2.id)

/-- The column takes every duration that the flush writes. -/
def Fits (r : RecoveryRead) : Prop :=
  ∀ p ∈ r.lost, FitsInteger (durationMs p.1.startedAt r.now)

instance (r : RecoveryRead) : Decidable r.Fits := inferInstanceAs (Decidable (∀ p ∈ r.lost, _))

end RecoveryRead

/-- The reads of `recover_stale_workers`, up to its commit. -/
def readRecovery (db : Database) (staleAfterSeconds : Nat) (locked : List UUID) (now : Time) :
    RecoveryRead :=
  let staleWorkers := db.findStaleWorkers (now - seconds staleAfterSeconds) locked
  { now := now
    staleWorkers := staleWorkers
    lost := db.lostAttempts (db.findRunningAttempts (staleWorkers.map (·.id))) }

/-- The flush: changed columns go to the rows by primary key, with no version check. -/
def flushRecovery (db : Database) (r : RecoveryRead) (maxAttempts : Nat) : Database :=
  { db with
    attempts := db.attempts.flush r.lost (·.1.id) (fun p => p.1.lose r.now)
      fun _ _ => ⟨rfl, rfl⟩
    invocations := db.invocations.flush r.lost (·.2.id) (fun p => p.2.lose maxAttempts r.now)
      fun _ _ => ⟨Invocation.lose_id _ _ _ _, Invocation.lose_ownerKey _ _ _ _⟩ }

/-- The commit: all of the flush, or nothing. -/
def commitRecovery (db : Database) (r : RecoveryRead) (maxAttempts : Nat) : Database :=
  if r.Fits then flushRecovery db r maxAttempts else db

/-- The whole call, with no other transaction in between. -/
def recoverStaleWorkers (db : Database) (staleAfterSeconds maxAttempts : Nat) (now : Time) :
    Database × Except RecoveryError RecoverySummary :=
  let r := readRecovery db staleAfterSeconds [] now
  if r.staleWorkers = [] then (db, .ok ⟨[], [], [], []⟩)
  else (commitRecovery db r maxAttempts,
    if r.Fits then .ok (r.summary maxAttempts) else .error .refused)

def markWorkersOffline (db : Database) (workerIds : List UUID) : Database :=
  { db with
    workers := db.workers.flush workerIds id
      (fun _ w => { w with status := .offline, activeInvocations := 0 }) fun _ _ => ⟨rfl, rfl⟩ }

/-- The row after it has been marked. -/
def Worker.goOffline (w : Worker) : Worker := { w with status := .offline, activeInvocations := 0 }

theorem mem_markWorkersOffline {db : Database} {workerIds : List UUID} {w' : Worker} :
    w' ∈ (markWorkersOffline db workerIds).workers ↔ ∃ w ∈ db.workers,
      (if w.id ∈ workerIds then w.goOffline else w) = w' := by
  refine List.mem_map.trans (exists_congr fun w => and_congr_right fun _ => ?_)
  by_cases hm : w.id ∈ workerIds
  · obtain ⟨v, hv⟩ : ∃ v, (workerIds.find? fun b => id b = w.id) = some v :=
      Option.isSome_iff_exists.mp (List.find?_isSome.mpr ⟨w.id, hm, by simp⟩)
    rw [if_pos hm, hv]
    rfl
  · have hv : (workerIds.find? fun b => id b = w.id) = none :=
      List.find?_eq_none.mpr fun b hb => by simpa using fun he : b = w.id => hm (he ▸ hb)
    rw [if_neg hm, hv]

theorem mem_findStaleWorkers {db : Database} {cutoff : Time} {locked : List UUID} {w : Worker} :
    w ∈ db.findStaleWorkers cutoff locked ↔
      w ∈ db.workers ∧ w.lastHeartbeat < cutoff ∧ w.status ≠ .offline ∧ w.id ∉ locked := by
  simp [Database.findStaleWorkers, Table.mem_rows]

theorem mem_findRunningAttempts {db : Database} {ids : List UUID} {a : InvocationAttempt} :
    a ∈ db.findRunningAttempts ids ↔
      a ∈ db.attempts ∧ (∃ w ∈ ids, a.workerId = some w) ∧ a.status = .running := by
  simp only [Database.findRunningAttempts, List.mem_insertionSort, List.mem_filter, List.mem_map,
    decide_eq_true_eq, Table.mem_rows]
  simp only [eq_comm]

/-- What the loop keeps about the pairs collected so far. -/
structure LostFrom (db : Database) (attempts : List InvocationAttempt)
    (lost : List (InvocationAttempt × Invocation)) : Prop where
  attempt : ∀ p ∈ lost, p.1 ∈ attempts
  loaded : ∀ p ∈ lost, db.invocations.get p.1.invocationId = some p.2
  running : ∀ p ∈ lost, p.2.status = .running
  nodup : (lost.map (·.2.id)).Nodup

theorem LostFrom.nil (db : Database) (attempts : List InvocationAttempt) :
    LostFrom db attempts [] where
  attempt := by simp
  loaded := by simp
  running := by simp
  nodup := List.nodup_nil

theorem lostAttempts_from (db : Database) (attempts : List InvocationAttempt) :
    LostFrom db attempts (db.lostAttempts attempts) := by
  unfold Database.lostAttempts
  refine List.foldlRecOn attempts _ (LostFrom.nil db attempts) fun lost h a ha => ?_
  cases hget : db.invocations.get a.invocationId with
  | none => exact h
  | some i =>
    dsimp only
    split
    · exact h
    · rename_i hc
      simp only [not_or, not_not] at hc
      obtain ⟨hrun, hnew⟩ := hc
      refine ⟨?_, ?_, ?_, ?_⟩
      · intro p hp
        rcases List.mem_append.mp hp with hp | hp
        · exact h.attempt p hp
        · rw [List.mem_singleton.mp hp]; exact ha
      · intro p hp
        rcases List.mem_append.mp hp with hp | hp
        · exact h.loaded p hp
        · rw [List.mem_singleton.mp hp]; exact hget
      · intro p hp
        rcases List.mem_append.mp hp with hp | hp
        · exact h.running p hp
        · rw [List.mem_singleton.mp hp]; exact hrun
      · rw [List.map_append, List.map_singleton, ← List.concat_eq_append]
        exact h.nodup.concat hnew

/-- Everything later proofs use about a read: stale rows, and the pairs that will be
flushed, each a running attempt of a stale worker with its running invocation. -/
structure ReadOf (db : Database) (staleAfterSeconds : Nat) (locked : List UUID)
    (r : RecoveryRead) : Prop where
  stale : ∀ w ∈ r.staleWorkers, w ∈ db.workers ∧
    w.lastHeartbeat < r.now - seconds staleAfterSeconds ∧ w.status ≠ .offline ∧ w.id ∉ locked
  attempt : ∀ p ∈ r.lost, p.1 ∈ db.attempts ∧ p.1.status = .running ∧
    ∃ w ∈ r.staleWorkerIds, p.1.workerId = some w
  invocation : ∀ p ∈ r.lost, p.2 ∈ db.invocations ∧ p.2.id = p.1.invocationId ∧
    p.2.status = .running
  nodup : (r.lost.map (·.2.id)).Nodup

theorem readRecovery_of (db : Database) (staleAfterSeconds : Nat) (locked : List UUID)
    (now : Time) :
    ReadOf db staleAfterSeconds locked (readRecovery db staleAfterSeconds locked now) := by
  have hl := lostAttempts_from db (db.findRunningAttempts
    ((db.findStaleWorkers (now - seconds staleAfterSeconds) locked).map (·.id)))
  refine ⟨?_, ?_, ?_, hl.nodup⟩
  · intro w hw
    exact mem_findStaleWorkers.mp hw
  · intro p hp
    obtain ⟨ha, hw, hs⟩ := mem_findRunningAttempts.mp (hl.attempt p hp)
    exact ⟨ha, hs, hw⟩
  · intro p hp
    have hget := hl.loaded p hp
    exact ⟨Table.get_mem hget, Table.get_key hget, hl.running p hp⟩

/-- Nothing is stale: nothing is lost. -/
theorem readRecovery_lost_nil {db : Database} {staleAfterSeconds : Nat} {locked : List UUID}
    {now : Time} (h : (readRecovery db staleAfterSeconds locked now).staleWorkers = []) :
    (readRecovery db staleAfterSeconds locked now).lost = [] := by
  have hr := readRecovery_of db staleAfterSeconds locked now
  refine List.eq_nil_iff_forall_not_mem.mpr fun p hp => ?_
  obtain ⟨-, -, w, hw, -⟩ := hr.attempt p hp
  simp [RecoveryRead.staleWorkerIds, h] at hw

theorem commitRecovery_of_fits {db : Database} {r : RecoveryRead} (h : r.Fits) (maxAttempts : Nat) :
    commitRecovery db r maxAttempts = flushRecovery db r maxAttempts := if_pos h

/-- A refused commit leaves everything as it was. -/
theorem commitRecovery_refused {db : Database} {r : RecoveryRead} (h : ¬ r.Fits)
    (maxAttempts : Nat) : commitRecovery db r maxAttempts = db := if_neg h

/-- With nothing lost there is nothing that the column could refuse. -/
theorem RecoveryRead.fits_of_nil {r : RecoveryRead} (h : r.lost = []) : r.Fits := by
  intro p hp
  rw [h] at hp
  cases hp

/-- What holds of the database whether or not the flush is kept holds of it after the commit. -/
theorem commitRecovery_rec {db : Database} {r : RecoveryRead} {maxAttempts : Nat}
    {P : Database → Prop} (hflushed : r.Fits → P (flushRecovery db r maxAttempts)) (hold : P db) :
    P (commitRecovery db r maxAttempts) := by
  unfold commitRecovery
  split
  · rename_i hfits
    exact hflushed hfits
  · exact hold

/-- A flush with no transaction in between: an invocation row is untouched or lost. -/
theorem ReadOf.flushed_invocations {db : Database} {staleAfterSeconds maxAttempts : Nat}
    {locked : List UUID} {r : RecoveryRead} (h : ReadOf db staleAfterSeconds locked r)
    {i' : Invocation} (hi' : i' ∈ (flushRecovery db r maxAttempts).invocations) :
    ∃ i ∈ db.invocations, (i' = i ∧ ∀ p ∈ r.lost, p.2.id ≠ i.id) ∨
      ∃ p ∈ r.lost, p.2 = i ∧ i' = i.lose maxAttempts r.now i := by
  obtain ⟨i, hi, hcase⟩ := Table.mem_flush
    (by exact fun _ _ => ⟨Invocation.lose_id _ _ _ _, Invocation.lose_ownerKey _ _ _ _⟩) hi'
  refine ⟨i, hi, hcase.imp_right ?_⟩
  rintro ⟨p, hp, hk, rfl⟩
  have he : p.2 = i := Table.eq_of_key (h.invocation p hp).1 hi hk
  exact ⟨p, hp, he, by rw [he]⟩

theorem ReadOf.flushed_attempts {db : Database} {staleAfterSeconds maxAttempts : Nat}
    {locked : List UUID} {r : RecoveryRead} (h : ReadOf db staleAfterSeconds locked r)
    {a' : InvocationAttempt} (ha' : a' ∈ (flushRecovery db r maxAttempts).attempts) :
    ∃ a ∈ db.attempts, (a' = a ∧ ∀ p ∈ r.lost, p.1.id ≠ a.id) ∨
      ∃ p ∈ r.lost, p.1 = a ∧ a' = a.lose r.now a := by
  obtain ⟨a, ha, hcase⟩ := Table.mem_flush (by exact fun _ _ => ⟨rfl, rfl⟩) ha'
  refine ⟨a, ha, hcase.imp_right ?_⟩
  rintro ⟨p, hp, hk, rfl⟩
  have he : p.1 = a := Table.eq_of_key (h.attempt p hp).1 ha hk
  exact ⟨p, hp, he, by rw [he]⟩

/-- Every old invocation row is still there under its id. -/
theorem flushRecovery_invocation_mem {db : Database} (r : RecoveryRead) (maxAttempts : Nat)
    {i : Invocation} (hi : i ∈ db.invocations) :
    ∃ i' ∈ (flushRecovery db r maxAttempts).invocations, i'.id = i.id := by
  obtain ⟨i', hi', hid, -⟩ := Table.flush_mem (l := r.lost) (k := (·.2.id))
    (f := fun p => p.2.lose maxAttempts r.now)
    (by exact fun _ _ => ⟨Invocation.lose_id _ _ _ _, Invocation.lose_ownerKey _ _ _ _⟩) hi
  exact ⟨i', hi', hid⟩

/-- Every old attempt row is still there under its id, with its invocation and number. -/
theorem flushRecovery_attempt_mem {db : Database} (r : RecoveryRead) (maxAttempts : Nat)
    {a : InvocationAttempt} (ha : a ∈ db.attempts) :
    ∃ a' ∈ (flushRecovery db r maxAttempts).attempts, a'.id = a.id ∧
      a'.invocationId = a.invocationId ∧ a'.attemptNumber = a.attemptNumber := by
  obtain ⟨a', ha', hid, hu, -⟩ := Table.flush_mem (l := r.lost) (k := (·.1.id))
    (f := fun p => p.1.lose r.now) (by exact fun _ _ => ⟨rfl, rfl⟩) ha
  simp only [InvocationAttempt.invocationNumber, Option.some.injEq, Prod.mk.injEq] at hu
  exact ⟨a', ha', hid, hu⟩

/-! ## The same rows after the commit, kept or refused -/

theorem ReadOf.mem_invocations {db : Database} {staleAfterSeconds maxAttempts : Nat}
    {locked : List UUID} {r : RecoveryRead} (h : ReadOf db staleAfterSeconds locked r)
    {i' : Invocation} (hi' : i' ∈ (commitRecovery db r maxAttempts).invocations) :
    ∃ i ∈ db.invocations, i' = i ∨ ∃ p ∈ r.lost, p.2 = i ∧ i' = i.lose maxAttempts r.now i := by
  refine commitRecovery_rec (P := fun db' => i' ∈ db'.invocations → ∃ i ∈ db.invocations,
    i' = i ∨ ∃ p ∈ r.lost, p.2 = i ∧ i' = i.lose maxAttempts r.now i) (fun _ hi' => ?_)
    (fun hi' => ⟨i', hi', .inl rfl⟩) hi'
  obtain ⟨i, hi, hcase⟩ := h.flushed_invocations hi'
  exact ⟨i, hi, hcase.imp_left And.left⟩

theorem ReadOf.mem_attempts {db : Database} {staleAfterSeconds maxAttempts : Nat}
    {locked : List UUID} {r : RecoveryRead} (h : ReadOf db staleAfterSeconds locked r)
    {a' : InvocationAttempt} (ha' : a' ∈ (commitRecovery db r maxAttempts).attempts) :
    ∃ a ∈ db.attempts, a' = a ∨ ∃ p ∈ r.lost, p.1 = a ∧ a' = a.lose r.now a := by
  refine commitRecovery_rec (P := fun db' => a' ∈ db'.attempts → ∃ a ∈ db.attempts,
    a' = a ∨ ∃ p ∈ r.lost, p.1 = a ∧ a' = a.lose r.now a) (fun _ ha' => ?_)
    (fun ha' => ⟨a', ha', .inl rfl⟩) ha'
  obtain ⟨a, ha, hcase⟩ := h.flushed_attempts ha'
  exact ⟨a, ha, hcase.imp_left And.left⟩

theorem commitRecovery_invocation_mem {db : Database} (r : RecoveryRead) (maxAttempts : Nat)
    {i : Invocation} (hi : i ∈ db.invocations) :
    ∃ i' ∈ (commitRecovery db r maxAttempts).invocations, i'.id = i.id :=
  commitRecovery_rec (P := fun db' => ∃ i' ∈ db'.invocations, i'.id = i.id)
    (fun _ => flushRecovery_invocation_mem r maxAttempts hi) ⟨i, hi, rfl⟩

theorem commitRecovery_attempt_mem {db : Database} (r : RecoveryRead) (maxAttempts : Nat)
    {a : InvocationAttempt} (ha : a ∈ db.attempts) :
    ∃ a' ∈ (commitRecovery db r maxAttempts).attempts, a'.id = a.id ∧
      a'.invocationId = a.invocationId ∧ a'.attemptNumber = a.attemptNumber :=
  commitRecovery_rec (P := fun db' => ∃ a' ∈ db'.attempts, a'.id = a.id ∧
    a'.invocationId = a.invocationId ∧ a'.attemptNumber = a.attemptNumber)
    (fun _ => flushRecovery_attempt_mem r maxAttempts ha) ⟨a, ha, rfl, rfl, rfl⟩

/-! The other tables are not the commit's business. -/

@[simp] theorem commitRecovery_functions (db : Database) (r : RecoveryRead) (maxAttempts : Nat) :
    (commitRecovery db r maxAttempts).functions = db.functions :=
  commitRecovery_rec (P := fun db' => db'.functions = db.functions) (fun _ => rfl) rfl

@[simp] theorem commitRecovery_versions (db : Database) (r : RecoveryRead) (maxAttempts : Nat) :
    (commitRecovery db r maxAttempts).versions = db.versions :=
  commitRecovery_rec (P := fun db' => db'.versions = db.versions) (fun _ => rfl) rfl

@[simp] theorem commitRecovery_dispatches (db : Database) (r : RecoveryRead) (maxAttempts : Nat) :
    (commitRecovery db r maxAttempts).dispatches = db.dispatches :=
  commitRecovery_rec (P := fun db' => db'.dispatches = db.dispatches) (fun _ => rfl) rfl

@[simp] theorem commitRecovery_workers (db : Database) (r : RecoveryRead) (maxAttempts : Nat) :
    (commitRecovery db r maxAttempts).workers = db.workers :=
  commitRecovery_rec (P := fun db' => db'.workers = db.workers) (fun _ => rfl) rfl

@[simp] theorem commitRecovery_invocations_index (db : Database) (r : RecoveryRead)
    (maxAttempts : Nat) :
    (commitRecovery db r maxAttempts).invocations.index = db.invocations.index :=
  commitRecovery_rec (P := fun db' => db'.invocations.index = db.invocations.index)
    (fun _ => Table.index_flush
      (by exact fun _ _ => ⟨Invocation.lose_id _ _ _ _, Invocation.lose_ownerKey _ _ _ _⟩) _) rfl

@[simp] theorem commitRecovery_attempts_index (db : Database) (r : RecoveryRead)
    (maxAttempts : Nat) :
    (commitRecovery db r maxAttempts).attempts.index = db.attempts.index :=
  commitRecovery_rec (P := fun db' => db'.attempts.index = db.attempts.index)
    (fun _ => Table.index_flush (by exact fun _ _ => ⟨rfl, rfl⟩) _) rfl

/-- The call always commits what it read: with no stale worker that is nothing. -/
theorem recoverStaleWorkers_db (db : Database) (staleAfterSeconds maxAttempts : Nat) (now : Time) :
    (recoverStaleWorkers db staleAfterSeconds maxAttempts now).1 =
      commitRecovery db (readRecovery db staleAfterSeconds [] now) maxAttempts := by
  unfold recoverStaleWorkers
  dsimp only
  split
  · rename_i h
    have hnil := readRecovery_lost_nil h
    rw [commitRecovery_of_fits (RecoveryRead.fits_of_nil hnil)]
    simp only [flushRecovery, hnil, Table.flush_nil]
  · rfl

/-- The call returns its summary if every duration fits, and raises otherwise. -/
theorem recoverStaleWorkers_result (db : Database) (staleAfterSeconds maxAttempts : Nat)
    (now : Time) :
    (recoverStaleWorkers db staleAfterSeconds maxAttempts now).2 =
      if (readRecovery db staleAfterSeconds [] now).Fits then
        .ok ((readRecovery db staleAfterSeconds [] now).summary maxAttempts)
      else .error .refused := by
  unfold recoverStaleWorkers
  dsimp only
  split
  · rename_i hnone
    have hnil := readRecovery_lost_nil hnone
    rw [if_pos (RecoveryRead.fits_of_nil hnil)]
    simp [RecoveryRead.summary, RecoveryRead.staleWorkerIds, RecoveryRead.staleConsumerNames, hnone,
      hnil]
  · rfl

theorem recoverStaleWorkers_ok {db : Database} {staleAfterSeconds maxAttempts : Nat} {now : Time}
    {summary : RecoverySummary}
    (h : (recoverStaleWorkers db staleAfterSeconds maxAttempts now).2 = .ok summary) :
    (readRecovery db staleAfterSeconds [] now).Fits ∧
      summary = (readRecovery db staleAfterSeconds [] now).summary maxAttempts := by
  rw [recoverStaleWorkers_result] at h
  split at h
  · rename_i hfits
    exact ⟨hfits, (Except.ok.inj h).symm⟩
  · cases h

end Serverless.Model
