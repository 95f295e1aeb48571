import Serverless.Cluster.Outbox
import Serverless.Model.Progress

/-!
# Rows and tasks that belong together

What holds in every reachable state of the cluster, whatever the workers do to each
other: outbox rows and attempts belong to invocations, the latest attempt of a running
invocation is running, and a task at hand is a copy of a delivered entry whose attempt,
once started, has its row.
-/
namespace Serverless.Cluster

open Serverless.Library Serverless.Model

structure DbWf (db : Database) : Prop where
  dispatchOwner : ∀ d ∈ db.dispatches, ∃ i ∈ db.invocations, i.id = d.invocationId
  attemptOwner : ∀ a ∈ db.attempts, ∃ i ∈ db.invocations, i.id = a.invocationId ∧
    1 ≤ a.attemptNumber ∧ a.attemptNumber ≤ i.attemptCount
  latest : ∀ i ∈ db.invocations, 1 ≤ i.attemptCount → ∃ a ∈ db.attempts,
    a.invocationId = i.id ∧ a.attemptNumber = i.attemptCount
  running : ∀ i ∈ db.invocations, i.status = .running → ∃ a ∈ db.attempts,
    a.invocationId = i.id ∧ a.attemptNumber = i.attemptCount ∧ a.status = .running

/-- A transaction that starts no attempt and adds no invocation. -/
structure Keeps (db db' : Database) : Prop where
  forward : ∀ i ∈ db.invocations, ∃ i' ∈ db'.invocations, i'.id = i.id ∧
    i'.attemptCount = i.attemptCount
  backward : ∀ i' ∈ db'.invocations, ∃ i ∈ db.invocations, i.id = i'.id ∧
    i.attemptCount = i'.attemptCount ∧ (i'.status = .running → i.status = .running ∧
      ∀ a ∈ db.attempts, a.invocationId = i.id → a ∈ db'.attempts)
  attempts : ∀ a ∈ db.attempts, ∃ a' ∈ db'.attempts, a'.id = a.id ∧
    a'.invocationId = a.invocationId ∧ a'.attemptNumber = a.attemptNumber
  none : NoneStarted db db'
  dispatches : ∀ d' ∈ db'.dispatches, ∃ i ∈ db.invocations, i.id = d'.invocationId
  terminal : TerminalKept db db'
  scheduled : ∀ d ∈ db.dispatches, ∃ d' ∈ db'.dispatches, d'.invocationId = d.invocationId ∧
    d'.attemptNumber = d.attemptNumber

theorem DbWf.keeps {db db' : Database} (h : DbWf db) (hk : Keeps db db') : DbWf db' := by
  refine ⟨fun d hd => ?_, fun a ha => ?_, fun i' hi' hc => ?_, fun i' hi' hr => ?_⟩
  · obtain ⟨i, hi, hid⟩ := hk.dispatches d hd
    obtain ⟨i', hi', hid', -⟩ := hk.forward i hi
    exact ⟨i', hi', hid'.trans hid⟩
  · obtain ⟨b, hb, -, hinv, hn, -⟩ := hk.none a ha
    obtain ⟨i, hi, hid, h₁, h₂⟩ := h.attemptOwner b hb
    obtain ⟨i', hi', hid', hc⟩ := hk.forward i hi
    exact ⟨i', hi', (hid'.trans hid).trans hinv, hn ▸ h₁, by rw [hc, ← hn]; exact h₂⟩
  · obtain ⟨i, hi, hid, hcount, -⟩ := hk.backward i' hi'
    obtain ⟨a, ha, hinv, hn⟩ := h.latest i hi (hcount ▸ hc)
    obtain ⟨a', ha', -, hinv', hn'⟩ := hk.attempts a ha
    exact ⟨a', ha', (hinv'.trans hinv).trans hid, (hn'.trans hn).trans hcount⟩
  · obtain ⟨i, hi, hid, hcount, hrun⟩ := hk.backward i' hi'
    obtain ⟨hirun, hkeep⟩ := hrun hr
    obtain ⟨a, ha, hinv, hn, hstatus⟩ := h.running i hi hirun
    exact ⟨a, hkeep a ha hinv, hinv.trans hid, hn.trans hcount, hstatus⟩

/-- Tables with one index hold rows with the same pairs. -/
theorem dispatch_of_index {t t' : DispatchTable} (h : t'.index = t.index) {d : InvocationDispatch}
    (hd : d ∈ t) :
    ∃ d' ∈ t', d'.invocationId = d.invocationId ∧ d'.attemptNumber = d.attemptNumber := by
  have hm : (d.id, d.invocationNumber) ∈ t'.index := h ▸ Table.mem_index.mpr ⟨d, hd, rfl⟩
  obtain ⟨d', hd', he⟩ := Table.mem_index.mp hm
  simp only [InvocationDispatch.invocationNumber, Prod.mk.injEq, Option.some.injEq] at he
  exact ⟨d', hd', he.2⟩

namespace Keeps

variable {db db' : Database}

theorem of_eq (h : DbWf db) (hi : db'.invocations = db.invocations)
    (ha : db'.attempts = db.attempts)
    (hd : db'.dispatches.index = db.dispatches.index) : Keeps db db' where
  forward := fun i him => ⟨i, hi ▸ him, rfl, rfl⟩
  backward := fun i him => ⟨i, hi ▸ him, rfl, rfl, fun hr => ⟨hr, fun a ham _ => ha ▸ ham⟩⟩
  attempts := fun a ham => ⟨a, ha ▸ ham, rfl, rfl, rfl⟩
  none := .of_eq ha
  dispatches := fun d' hd' => by
    obtain ⟨d, hdm, he, -⟩ := dispatch_of_index hd.symm hd'
    obtain ⟨i, him, hid⟩ := h.dispatchOwner d hdm
    exact ⟨i, him, hid.trans he⟩
  terminal := .of_eq hi
  scheduled := fun d hdm => dispatch_of_index hd hdm

/-- An update of one invocation that is not terminal and does not end in `RUNNING`, with the
attempts of the other invocations as they were. -/
theorem modify {id : UUID} {f : Invocation → Invocation} {i : Invocation}
    (h : DbWf db) (hf : ∀ r, (f r).id = r.id ∧ (f r).ownerKey = r.ownerKey)
    (hget : db.invocations.get id = some i) (ht : ¬ i.status.isTerminal)
    (hc : (f i).attemptCount = i.attemptCount) (hs : (f i).status ≠ .running)
    (hdb : db'.invocations = db.invocations.modify id f hf)
    (ha : ∀ a ∈ db.attempts, ∃ a' ∈ db'.attempts, a'.id = a.id ∧
      a'.invocationId = a.invocationId ∧ a'.attemptNumber = a.attemptNumber ∧
      (a.invocationId ≠ id → a' = a))
    (hn : NoneStarted db db') (hdm : ∀ d ∈ db.dispatches, d ∈ db'.dispatches)
    (hd : ∀ d' ∈ db'.dispatches, d' ∈ db.dispatches ∨ d'.invocationId = id) : Keeps db db' := by
  have hid : i.id = id := Table.get_key hget
  refine ⟨fun j hj => ?_, fun j' hj' => ?_, fun a ham => ?_, hn, fun d' hd' => ?_, ?_,
    fun d hdd => ⟨d, hdm d hdd, rfl, rfl⟩⟩
  · rw [hdb]
    by_cases he : j.id = id
    · obtain rfl : j = i := Table.eq_of_key hj (Table.get_mem hget) (he.trans hid.symm)
      exact ⟨f j, Table.mem_modify_self hf hget, (hf j).1, hc⟩
    · exact ⟨j, Table.mem_modify_of_ne hf hj he, rfl, rfl⟩
  · rw [hdb] at hj'
    rcases Table.mem_modify_cases hf hget hj' with rfl | ⟨hj, hne⟩
    · exact ⟨i, Table.get_mem hget, (hf i).1.symm, hc.symm, fun hr => absurd hr hs⟩
    · refine ⟨j', hj, rfl, rfl, fun hr => ⟨hr, fun a ham hai => ?_⟩⟩
      obtain ⟨a', ha', -, -, -, hsame⟩ := ha a ham
      rwa [hsame (hai ▸ hne)] at ha'
  · obtain ⟨a', ha', h₁, h₂, h₃, -⟩ := ha a ham
    exact ⟨a', ha', h₁, h₂, h₃⟩
  · rcases hd d' hd' with hdd | he
    · exact h.dispatchOwner d' hdd
    · exact ⟨i, Table.get_mem hget, hid.trans he.symm⟩
  · intro j hj hjt
    rw [hdb]
    exact TerminalKept.modify hf hget ht j hj hjt

/-- A `mark_running` that raises. -/
theorem markRunning (h : DbWf db) {task : InvocationTask} {workerId : Option UUID}
    {attemptId : UUID} {now : Time} {error : StartError}
    (hr : markRunning db task workerId attemptId now = (db', .error error)) : Keeps db db' := by
  cases markRunning_cases hr with
  | missing | terminal | superseded | future | late | rejected => exact of_eq h rfl rfl rfl
  | expired i hget ht =>
    exact modify (f := (·.expire now)) h (fun _ => ⟨rfl, rfl⟩) hget ht rfl
      (by simp [Invocation.expire]) rfl (fun a ha => ⟨a, ha, rfl, rfl, rfl, fun _ => rfl⟩)
      (.of_eq rfl) (fun _ hd => hd) fun _ hd => Or.inl hd

/-- The row of the attempt object that `mark_finished` writes to, and the other rows. -/
private theorem finishAttempt_rows {a row : InvocationAttempt} {id : UUID}
    (result : RuntimeExecutionResult) (now : Time) (hrow : row ∈ db.attempts) (hid : row.id = a.id)
    (hinv : row.invocationId = id)
    (hdb : db'.attempts = (db.finishAttempt a result now).attempts) :
    ∀ b ∈ db.attempts, ∃ b' ∈ db'.attempts, b'.id = b.id ∧ b'.invocationId = b.invocationId ∧
      b'.attemptNumber = b.attemptNumber ∧ (b.invocationId ≠ id → b' = b) := by
  intro b hb
  rw [hdb]
  by_cases he : b.id = a.id
  · obtain rfl : b = row := Table.eq_of_key hb hrow (he.trans hid.symm)
    refine ⟨a.finish result now b, ?_, rfl, rfl, rfl, fun hne => absurd hinv hne⟩
    exact Table.mem_modify_self (by exact fun _ => ⟨rfl, rfl⟩) (he ▸ Table.get_of_mem hb)
  · exact ⟨b, Table.mem_modify_of_ne (by exact fun _ => ⟨rfl, rfl⟩) hb he, rfl, rfl, rfl,
      fun _ => rfl⟩

/-- A `mark_finished` with an attempt object whose row belongs to the same invocation. -/
theorem markFinished (h : DbWf db) {invocationId : UUID} {held row : InvocationAttempt}
    {result : RuntimeExecutionResult} {decision : RetryDecision} {dispatchId : UUID} {now : Time}
    {r : Except CompleteError InvocationAttempt} (hrow : row ∈ db.attempts)
    (hid : row.id = held.id) (hinv : row.invocationId = invocationId)
    (hm : markFinished db invocationId held.id (some held) result decision dispatchId now =
      (db', r)) : Keeps db db' := by
  cases markFinished_cases hm with
  | raised | rejected => exact of_eq h rfl rfl rfl
  | retried i a dispatches hget hload _ hi ha hr hv =>
    obtain rfl := eq_of_loadAttempt hload
    refine modify (f := (·.retry result)) h (fun _ => ⟨rfl, rfl⟩) hget
      (TerminalKept.running_not_terminal hi) rfl (by simp [Invocation.retry]) rfl
      (finishAttempt_rows result now hrow hid hinv rfl) (NoneStarted.markFinished hm)
      (fun d hd => (Table.mem_insert hv).mpr (Or.inl hd)) fun d hd => ?_
    rcases (Table.mem_insert hv).mp hd with hd | rfl
    · exact Or.inl hd
    · exact Or.inr rfl
  | completed i a status hget hload _ hi ha hr hs =>
    obtain rfl := eq_of_loadAttempt hload
    have hterm := attemptToInvocationStatus_isTerminal hs
    refine modify (f := (·.complete status result now)) h (fun _ => ⟨rfl, rfl⟩) hget
      (TerminalKept.running_not_terminal hi) rfl (fun hrun => ?_) rfl
      (finishAttempt_rows result now hrow hid hinv rfl) (NoneStarted.markFinished hm)
      (fun _ hd => hd) fun _ hd => Or.inl hd
    change status = .running at hrun
    exact absurd hterm (by rw [hrun]; decide)

theorem heartbeat (h : DbWf db) {workerId : UUID} {activeInvocations : Nat} {status : WorkerStatus}
    {now : Time} (hdb : recordHeartbeat db workerId activeInvocations status now = some db') :
    Keeps db db' := by
  obtain ⟨workers, rfl⟩ := recordHeartbeat_some hdb
  exact of_eq h rfl rfl rfl

/-- A recovery that commits what it has just read. -/
theorem recovered (h : DbWf db) {staleAfterSeconds : Nat} {locked : List UUID} {r : RecoveryRead}
    (hr : ReadOf db staleAfterSeconds locked r) (maxAttempts : Nat) :
    Keeps db (commitRecovery db r maxAttempts) := by
  have hnone := NoneStarted.recovered hr maxAttempts
  have hterm := TerminalKept.recovered hr maxAttempts
  refine commitRecovery_rec (P := fun db' => NoneStarted db db' → TerminalKept db db' →
    Keeps db db') (fun _ hnone hterm => ?_) (fun _ _ => of_eq h rfl rfl rfl) hnone hterm
  have hcount : ∀ {i' : Invocation}, i' ∈ (flushRecovery db r maxAttempts).invocations →
      ∃ i ∈ db.invocations, i.id = i'.id ∧ i.attemptCount = i'.attemptCount ∧
        (i' = i ∧ (∀ p ∈ r.lost, p.2.id ≠ i.id) ∨ i'.status ≠ .running) := by
    intro i' hi'
    obtain ⟨i, hi, ⟨rfl, hfree⟩ | ⟨p, hp, rfl, rfl⟩⟩ := hr.flushed_invocations hi'
    · exact ⟨i', hi, rfl, rfl, Or.inl ⟨rfl, hfree⟩⟩
    · refine ⟨p.2, hi, (Invocation.lose_id _ _ _ _).symm, (Invocation.lose_attemptCount _ _ _ _).symm,
        Or.inr ?_⟩
      rw [Invocation.lose_status (hr.invocation p hp).2.2]
      split <;> decide
  refine ⟨fun i hi => ?_, fun i' hi' => ?_, fun a ha => flushRecovery_attempt_mem r maxAttempts ha,
    hnone, h.dispatchOwner, hterm, fun d hd => ⟨d, hd, rfl, rfl⟩⟩
  · obtain ⟨i', hi', hid⟩ := flushRecovery_invocation_mem r maxAttempts hi
    obtain ⟨j, hj, hjd, hjc, -⟩ := hcount hi'
    obtain rfl : j = i := Table.eq_of_key hj hi (hjd.trans hid)
    exact ⟨i', hi', hid, hjc.symm⟩
  · obtain ⟨i, hi, hid, hc, ⟨rfl, hfree⟩ | hne⟩ := hcount hi'
    · refine ⟨i', hi, rfl, rfl, fun hrun => ⟨hrun, fun a ha hai => ?_⟩⟩
      -- no attempt of an invocation that stays `RUNNING` was lost
      have hnot : ∀ p ∈ r.lost, p.1.id ≠ a.id := by
        intro p hp he
        obtain rfl : p.1 = a := Table.eq_of_key (hr.attempt p hp).1 ha he
        exact hfree p hp ((hr.invocation p hp).2.1.trans hai)
      exact Table.get_mem ((Table.get_flush_of_not_listed (by exact fun _ _ => ⟨rfl, rfl⟩)
        hnot).trans (Table.get_of_mem ha))
    · exact ⟨i, hi, hid, hc, fun hrun => absurd hrun hne⟩

theorem recoverStaleWorkers (h : DbWf db) (staleAfterSeconds maxAttempts : Nat) (now : Time) :
    Keeps db (recoverStaleWorkers db staleAfterSeconds maxAttempts now).1 := by
  rw [recoverStaleWorkers_db]
  exact recovered h (readRecovery_of _ _ _ _) _

end Keeps

namespace DbWf

variable {db db' : Database}

theorem fresh (functions : Table Function.id Function.ownerName)
    (versions : Table FunctionVersion.id FunctionVersion.functionNumber) :
    DbWf (.fresh functions versions) where
  dispatchOwner := fun d hd => absurd hd (Table.not_mem_empty d)
  attemptOwner := fun a ha => absurd ha (Table.not_mem_empty a)
  latest := fun i hi => absurd hi (Table.not_mem_empty i)
  running := fun i hi => absurd hi (Table.not_mem_empty i)

/-- A new invocation has no attempt, and its first outbox row. -/
theorem inserted (h : DbWf db) {request : CreateRequest} {version : FunctionVersion}
    {invocationId dispatchId : UUID} {now : Time}
    (hc : insertInvocation db request version invocationId dispatchId now = .ok db') :
    DbWf db' := by
  obtain ⟨invocations, dispatches, hi, hd, rfl⟩ := insertInvocation_ok hc
  refine ⟨fun d hdm => ?_, fun a ha => ?_, fun i him hn => ?_, fun i him hr => ?_⟩
  · rcases (Table.mem_insert hd).mp hdm with hdm | rfl
    · obtain ⟨i, him, he⟩ := h.dispatchOwner d hdm
      exact ⟨i, (Table.mem_insert hi).mpr (Or.inl him), he⟩
    · exact ⟨_, (Table.mem_insert hi).mpr (Or.inr rfl), rfl⟩
  · obtain ⟨i, him, hrest⟩ := h.attemptOwner a ha
    exact ⟨i, (Table.mem_insert hi).mpr (Or.inl him), hrest⟩
  · rcases (Table.mem_insert hi).mp him with him | rfl
    · exact h.latest i him hn
    · exact absurd hn (by simp [newInvocation])
  · rcases (Table.mem_insert hi).mp him with him | rfl
    · exact h.running i him hr
    · cases hr

/-- The started attempt is the latest of its invocation, and running. -/
theorem started (h : DbWf db) {task : InvocationTask} {workerId : Option UUID}
    {attempt : InvocationAttempt} {i : Invocation}
    (hst : Started db task workerId attempt db' i) : DbWf db' := by
  have hkey : i.id = task.invocationId := Table.get_key hst.found
  have hkeep : ∀ j ∈ db.invocations, ∃ j' ∈ db'.invocations, j'.id = j.id ∧
      j.attemptCount ≤ j'.attemptCount := by
    intro j hj
    by_cases he : j.id = task.invocationId
    · obtain rfl : j = i := Table.eq_of_key hj (Table.get_mem hst.found) (he.trans hkey.symm)
      obtain ⟨j', hj', hid, hcount⟩ := hst.invocation
      exact ⟨j', hj', hid, by omega⟩
    · exact ⟨j, hst.kept j hj he, rfl, Nat.le_refl _⟩
  refine ⟨fun d hd => ?_, fun b hb => ?_, fun j hj hn => ?_, fun j hj hrun => ?_⟩
  · rw [hst.dispatches] at hd
    obtain ⟨j, hj, he⟩ := h.dispatchOwner d hd
    obtain ⟨j', hj', hid, -⟩ := hkeep j hj
    exact ⟨j', hj', hid.trans he⟩
  · rcases hst.attempts.mp hb with hb | rfl
    · obtain ⟨j, hj, he, h₁, h₂⟩ := h.attemptOwner b hb
      obtain ⟨j', hj', hid, hle⟩ := hkeep j hj
      exact ⟨j', hj', hid.trans he, h₁, h₂.trans hle⟩
    · obtain ⟨j', hj', hid, hcount⟩ := hst.invocation
      have hnumber := hst.number
      exact ⟨j', hj', (hid.trans hkey).trans hst.invocationId.symm, by omega, by omega⟩
  · rcases hst.others hj with ⟨hid, hcount⟩ | ⟨hj, -⟩
    · exact ⟨attempt, hst.attempts.mpr (Or.inr rfl), hst.invocationId.trans hid.symm,
        hst.number.trans hcount.symm⟩
    · obtain ⟨b, hb, hrest⟩ := h.latest j hj hn
      exact ⟨b, hst.attempts.mpr (Or.inl hb), hrest⟩
  · rcases hst.others hj with ⟨hid, hcount⟩ | ⟨hj, -⟩
    · exact ⟨attempt, hst.attempts.mpr (Or.inr rfl), hst.invocationId.trans hid.symm,
        hst.number.trans hcount.symm, hst.running⟩
    · obtain ⟨b, hb, hrest⟩ := h.running j hj hrun
      exact ⟨b, hst.attempts.mpr (Or.inl hb), hrest⟩

/-- The attempts of the invocation had been counted. -/
theorem counted (h : DbWf db) {task : InvocationTask} {workerId : Option UUID}
    {attempt : InvocationAttempt} {i : Invocation}
    (hst : Started db task workerId attempt db' i) {a : InvocationAttempt} (ha : a ∈ db.attempts)
    (hinv : a.invocationId = task.invocationId) : a.attemptNumber ≤ i.attemptCount := by
  obtain ⟨j, hj, hjd, -, hjle⟩ := h.attemptOwner a ha
  obtain rfl : j = i := Table.eq_of_key hj (Table.get_mem hst.found)
    ((hjd.trans hinv).trans (Table.get_key hst.found).symm)
  exact hjle

end DbWf

/-! ## Tasks at hand -/

/-- The attempt object a coroutine holds. -/
def Stage.attempt : Stage → Option InvocationAttempt
  | .refreshing a | .executing a | .finishing a _ => some a
  | .ready | .acking => none

/-- The committed row of an attempt object. -/
def HasRow (db : Database) (a : InvocationAttempt) : Prop :=
  ∃ row ∈ db.attempts, row.id = a.id ∧ row.invocationId = a.invocationId ∧
    row.attemptNumber = a.attemptNumber

/-- A task is a copy of a delivered entry, and its attempt object has a row. -/
structure ItemWf (db : Database) (g : Group) (x : InvocationTask × Stage) : Prop where
  entry : ∃ e, g.entry x.1.streamMessageId = some e ∧ e.fields.invocationId = x.1.invocationId ∧
    e.fields.attemptNumber = x.1.attemptNumber
  delivered : x.1.streamMessageId ≤ g.delivered
  held : ∀ a, x.2.attempt = some a → a.invocationId = x.1.invocationId ∧ HasRow db a

/-- Entries stay and deliveries are not taken back. -/
structure Grows (g g' : Group) : Prop where
  entry : ∀ id e, g.entry id = some e → g'.entry id = some e
  delivered : g.delivered ≤ g'.delivered

namespace Grows

variable (g : Group)

theorem refl : Grows g g := ⟨fun _ _ h => h, Nat.le_refl _⟩

theorem add (message : Option StreamMessage) (now : Time) : Grows g (addMessage g message now) := by
  cases message with
  | none => exact refl g
  | some m =>
    refine ⟨fun id e he => ?_, Nat.le_refl _⟩
    have hle := (ConsumerGroup.entry_eq_some he).2.1
    show (g.add m now).entry id = some e
    rw [ConsumerGroup.entry_add, if_neg (by omega)]
    exact he

theorem read (consumer : String) (count : Nat) (now : Time) :
    Grows g (g.read consumer count now) :=
  ⟨fun id _ he => (ConsumerGroup.entry_read g consumer count now id).trans he, Nat.le_add_right _ _⟩

theorem ack (id : StreamId) : Grows g (g.ack id) :=
  ⟨fun id' _ he => (ConsumerGroup.entry_ack g id id').trans he, Nat.le_refl _⟩

theorem claim (consumer : String) (minIdle : Int) (ids : List StreamId) (now : Time) :
    Grows g (g.claim consumer minIdle ids now) :=
  ⟨fun id _ he => (ConsumerGroup.entry_claim g consumer minIdle ids now id).trans he,
    Nat.le_refl _⟩

end Grows

namespace ItemWf

variable {db db' : Database} {g g' : Group}

theorem mono {x : InvocationTask × Stage} (h : ItemWf db g x) (hg : Grows g g')
    (ha : ∀ a ∈ db.attempts, ∃ a' ∈ db'.attempts, a'.id = a.id ∧
      a'.invocationId = a.invocationId ∧ a'.attemptNumber = a.attemptNumber) : ItemWf db' g' x where
  entry := by
    obtain ⟨e, he, hm⟩ := h.entry
    exact ⟨e, hg.entry _ _ he, hm⟩
  delivered := h.delivered.trans hg.delivered
  held := fun a hx => by
    obtain ⟨hinv, row, hrow, h₁, h₂, h₃⟩ := h.held a hx
    obtain ⟨row', hrow', h₁', h₂', h₃'⟩ := ha row hrow
    exact ⟨hinv, row', hrow', h₁'.trans h₁, h₂'.trans h₂, h₃'.trans h₃⟩

/-- The coroutine has moved on to a stage whose attempt object has a row. -/
theorem goTo {task : InvocationTask} {stage stage' : Stage} (h : ItemWf db g (task, stage))
    (ha : ∀ a, stage'.attempt = some a → a.invocationId = task.invocationId ∧ HasRow db a) :
    ItemWf db g (task, stage') :=
  ⟨h.entry, h.delivered, ha⟩

theorem move {task : InvocationTask} {stage stage' : Stage} (h : ItemWf db g (task, stage))
    (hm : StageMove db stage stage') : ItemWf db g (task, stage') := by
  refine h.goTo fun a ha => ?_
  cases hm with
  | refreshed b =>
    obtain rfl : refreshAttempt db b = a := Option.some.inj ha
    obtain ⟨hinv, row, hrow, h₁, h₂, h₃⟩ := h.held b rfl
    rw [refreshAttempt_eq hrow h₁]
    exact ⟨h₂.trans hinv, row, hrow, rfl, rfl, rfl⟩
  | executed b result => exact h.held a ha

/-- A task made of a delivered entry. -/
theorem taken {id : StreamId} {recovered : Bool} {task : InvocationTask}
    (h : taskOf g recovered id = some task) (hg : Grows g g') (hd : id ≤ g'.delivered) :
    ItemWf db g' (task, .ready) := by
  obtain ⟨e, he, rfl⟩ := Option.map_eq_some_iff.mp h
  exact ⟨⟨e, hg.entry id e he, rfl, rfl⟩, hd, fun a ha => by cases ha⟩

end ItemWf

/-- The entry an attempt was started from: delivered, and of the attempt's invocation. -/
def OriginOf (g : Group) (id : StreamId) (a : InvocationAttempt) : Prop :=
  (∃ e, g.entry id = some e ∧ e.fields.invocationId = a.invocationId) ∧ id ≤ g.delivered

structure Rows (s : State) : Prop where
  wf : DbWf s.db
  items : ∀ x ∈ s.items, ItemWf s.db s.group x
  origins : ∀ a ∈ s.db.attempts, OriginOf s.group (s.origin a.id) a

namespace Rows

variable {s t : State}

theorem frame (h : Rows s) (hk : Keeps s.db t.db) (hg : Grows s.group t.group)
    (ho : t.origin = s.origin) (hi : ∀ x ∈ t.items, x ∈ s.items ∨ ItemWf t.db t.group x) :
    Rows t where
  wf := h.wf.keeps hk
  items := fun x hx => by
    rcases hi x hx with hx | hx
    · exact (h.items x hx).mono hg hk.attempts
    · exact hx
  origins := fun a' ha' => by
    obtain ⟨a, ha, hid, hinv, -⟩ := hk.none a' ha'
    obtain ⟨⟨e, he, hei⟩, hd⟩ := h.origins a ha
    rw [ho, ← hid]
    exact ⟨⟨e, hg.entry _ _ he, hei.trans hinv⟩, hd.trans hg.delivered⟩

/-- The tasks at hand are still those of the processes. -/
theorem same (h : Rows s) (hk : Keeps s.db t.db) (hg : Grows s.group t.group)
    (ho : t.origin = s.origin) (hi : t.items = s.items) : Rows t :=
  h.frame hk hg ho fun _ hx => Or.inl (hi ▸ hx)

theorem created (h : Rows s) {request : CreateRequest} {version : FunctionVersion}
    {invocationId dispatchId : UUID} {queuedAt : Time} {db : Database}
    (hc : insertInvocation s.db request version invocationId dispatchId queuedAt = .ok db) :
    Rows { s with db := db } := by
  refine ⟨h.wf.inserted hc, fun x hx => ?_, fun a ha => ?_⟩
  · obtain ⟨_, _, -, -, rfl⟩ := insertInvocation_ok hc
    exact (h.items x hx).mono (.refl _) fun a ha => ⟨a, ha, rfl, rfl, rfl⟩
  · obtain ⟨_, _, -, -, rfl⟩ := insertInvocation_ok hc
    exact h.origins a ha

/-- A task whose `mark_running` has gone through. -/
theorem started (h : Rows s) {task : InvocationTask} {workerId : Option UUID}
    {attempt : InvocationAttempt} {i : Invocation}
    (hst : Started s.db task workerId attempt t.db i)
    (hx : ItemWf s.db s.group (task, .ready)) (hg : t.group = s.group)
    (ho : t.origin = Function.update s.origin attempt.id task.streamMessageId)
    (hi : ∀ x ∈ t.items, x ∈ s.items ∨ x = (task, .refreshing attempt)) : Rows t := by
  have hkept : ∀ b ∈ s.db.attempts, ∃ b' ∈ t.db.attempts, b'.id = b.id ∧
      b'.invocationId = b.invocationId ∧ b'.attemptNumber = b.attemptNumber :=
    fun b hb => ⟨b, hst.attempts.mpr (Or.inl hb), rfl, rfl, rfl⟩
  refine ⟨h.wf.started hst, fun x hxt => ?_, fun b hb => ?_⟩
  · rw [hg]
    rcases hi x hxt with hxs | rfl
    · exact (h.items x hxs).mono (.refl _) hkept
    · refine (hx.mono (.refl _) hkept).goTo fun b hb => ?_
      cases hb
      exact ⟨hst.invocationId, attempt, hst.attempts.mpr (Or.inr rfl), rfl, rfl, rfl⟩
  · rw [hg, ho]
    rcases hst.attempts.mp hb with hb | rfl
    · -- the attempt's id is new, so the origins of the other attempts stay
      rw [Function.update_of_ne (hst.fresh b hb)]
      exact h.origins b hb
    · rw [Function.update_self]
      obtain ⟨e, he, hei, -⟩ := hx.entry
      exact ⟨⟨e, he, hei.trans hst.invocationId.symm⟩, hx.delivered⟩

theorem worked {n : Nat} {p p' : Process} {e : WorkerEvent} {u : State} (h : Rows s)
    (hp : s.processes[n]? = some p) (hw : WorkerEffect s p e u p') : Rows (u.setProcess n p') := by
  have hdrop : p'.items.Subperm p.items → ∀ x ∈ (u.setProcess n p').items, x ∈ s.items :=
    fun hi x hx => (items_dropped hp hw hi).subset hx
  have htake : ∀ {tasks : List InvocationTask}, p'.items.Perm (tasks.map (·, .ready) ++ p.items) →
      ∀ x ∈ (u.setProcess n p').items, x ∈ s.items ∨ ∃ task ∈ tasks, (task, .ready) = x := by
    intro tasks hi x hx
    rcases List.mem_append.mp ((items_taken hp hw hi).mem_iff.mp hx) with hx | hx
    · exact Or.inr (List.mem_map.mp hx)
    · exact Or.inl hx
  have hmove : ∀ {j c stage}, p.coroutines[j]? = some c →
      p'.items.Perm ((c.task, stage) :: p.others j) → (c.task, c.stage) ∈ s.items ∧
      ∀ x ∈ (u.setProcess n p').items, x ∈ s.items ∨ x = (c.task, stage) := by
    intro j c stage hc hi
    obtain ⟨rest, hs, ht⟩ := items_moved hp hw hc (l := [(c.task, stage)]) hi
    refine ⟨hs.mem_iff.mpr List.mem_cons_self, fun x hx => ?_⟩
    rcases List.mem_cons.mp (ht.mem_iff.mp hx) with hx | hx
    · exact Or.inr hx
    · exact Or.inl (hs.mem_iff.mpr (List.mem_cons_of_mem _ hx))
  have hsame : Keeps s.db s.db := .of_eq h.wf rfl rfl rfl
  cases hw with
  | own e p' ho =>
    refine h.frame hsame (.refl _) rfl fun x hx => ?_
    rcases ho.items with hi | ⟨j, c, stage, hc, hm, hi⟩
    · exact Or.inl (hdrop hi x hx)
    · obtain ⟨hc', hx'⟩ := hmove hc hi
      rcases hx' x hx with hx | rfl
      · exact Or.inl hx
      · exact Or.inr ((h.items _ hc').move hm)
  | heartbeat db hdb =>
    exact h.frame (.heartbeat h.wf hdb) (.refl _) rfl
      fun x hx => Or.inl (hdrop (List.Subperm.refl _) x hx)
  | scanned scan hl hscan =>
    refine h.frame (.recoverStaleWorkers h.wf _ _ _) (.refl _) rfl
      fun x hx => Or.inl (hdrop ?_ x hx)
    exact Process.items_dropLoop (Process.afterScan_tasks _)
  | claimed scan recovered names tasks consumer ids hl =>
    refine h.frame hsame (.claim _ _ _ _ _) rfl fun x hx => ?_
    rcases htake (Process.items_goTo (by rw [hl]; rfl)) x hx with hx | ⟨task, ht, rfl⟩
    · exact Or.inl hx
    · obtain ⟨id, hid, htask⟩ := List.mem_filterMap.mp ht
      obtain ⟨-, hpend⟩ := ConsumerGroup.mem_claimedIds _ _ _ _ hid
      obtain ⟨q, hq, rfl⟩ := List.mem_map.mp hpend
      exact Or.inr (.taken htask (.claim _ _ _ _ _) (s.group.pending_le q hq).2)
  | autoclaimed scan recovered startId ids nextStartId claimed hl hids hclaimed =>
    refine h.frame hsame (.claim _ _ _ _ _) rfl fun x hx => ?_
    rcases htake (Process.items_goTo (by rw [hl]; rfl)) x hx with hx | ⟨task, ht, rfl⟩
    · exact Or.inl hx
    · rw [hclaimed] at ht
      obtain ⟨id, hid, htask⟩ := List.mem_filterMap.mp ht
      obtain ⟨q, hq, rfl, -⟩ := ConsumerGroup.mem_autoClaimIds hids hid
      exact Or.inr (.taken htask (.claim _ _ _ _ _) (s.group.pending_le q hq).2)
  | offlined scan recovered hl =>
    refine h.frame (.of_eq h.wf rfl rfl rfl) (.refl _) rfl fun x hx => Or.inl (hdrop ?_ x hx)
    exact Process.items_dropLoop (Process.afterRecovery_tasks _)
  | read hl =>
    refine h.frame hsame (.read _ _ _ _) rfl fun x hx => ?_
    rcases htake (Process.items_goTo (by rw [hl]; rfl)) x hx with hx | ⟨task, ht, rfl⟩
    · exact Or.inl hx
    · obtain ⟨id, hid, htask⟩ := List.mem_filterMap.mp ht
      exact Or.inr (.taken htask (.read _ _ _ _) (ConsumerGroup.mem_nextIds.mp hid).2)
  | started j c attemptId db attempt hc hst hm =>
    obtain ⟨hc', hx⟩ := hmove hc (Process.items_setStage hc _)
    obtain ⟨i, hi⟩ := markRunning_started hm
    exact h.started hi (hst ▸ h.items _ hc') rfl rfl hx
  | dismissed j c attemptId db error hc hst hm =>
    obtain ⟨hc', hx⟩ := hmove hc (Process.items_setStage hc _)
    have hk : Keeps s.db db := .markRunning h.wf hm
    refine h.frame hk (.refl _) rfl fun x hxt => ?_
    rcases hx x hxt with hx | rfl
    · exact Or.inl hx
    · exact Or.inr (((h.items _ hc').mono (.refl _) hk.attempts).goTo (by simp [Stage.attempt]))
  | notStarted j c attemptId db error hc hst hm =>
    refine h.frame (.markRunning h.wf hm) (.refl _) rfl fun x hx => Or.inl (hdrop ?_ x hx)
    exact Process.items_failed.trans (Process.others_subperm hc)
  | finished j c attempt result jitter dispatchId db row hc hst hm =>
    obtain ⟨hc', hx⟩ := hmove hc (Process.items_setStage hc _)
    obtain ⟨hinv, r, hr, h₁, h₂, -⟩ := (h.items _ hc').held attempt (by rw [hst]; rfl)
    have hk : Keeps s.db db := .markFinished h.wf hr h₁ (h₂.trans hinv) hm
    refine h.frame hk (.refl _) rfl fun x hxt => ?_
    rcases hx x hxt with hx | rfl
    · exact Or.inl hx
    · exact Or.inr (((h.items _ hc').mono (.refl _) hk.attempts).goTo (by simp [Stage.attempt]))
  | acked j c hc hst =>
    refine h.frame hsame (.ack _ _) rfl fun x hx => Or.inl (hdrop ?_ x hx)
    exact Process.others_subperm hc
  | shutDown db hl hdb =>
    refine h.frame (.heartbeat h.wf hdb) (.refl _) rfl fun x hx => Or.inl (hdrop ?_ x hx)
    exact Process.items_dropLoop rfl

theorem step {e : Event} (h : Rows s) (hs : step s e = some t) : Rows t := by
  have hsame : Keeps s.db s.db := .of_eq h.wf rfl rfl rfl
  cases step_effect hs with
  | ticked | selected | rolledBack => exact h.same hsame (.refl _) rfl rfl
  | created request version invocationId dispatchId queuedAt db hq hc => exact h.created hc
  | published b d todo done outcome hb => exact h.same hsame (.add _ _ _) rfl rfl
  | committed b done hb =>
    refine h.same (.of_eq h.wf rfl rfl ?_) (.refl _) rfl rfl
    exact Table.index_flush (by exact fun _ _ => ⟨rfl, rfl⟩) _
  | registered workerId hostname consumerName persisted config workers hn hw =>
    refine h.same (.of_eq h.wf rfl rfl rfl) (.refl _) rfl ?_
    simp [State.items, Process.items, Loop.tasks]
  | worked n p e u p' hp hw => exact h.worked hp hw

end Rows

theorem rows_reachable {s : State} (h : Reachable step init s) : Rows s := by
  refine h.invariant (fun s hs => ?_) fun _ hi hs => hi.step hs
  obtain ⟨⟨functions, versions, hdb⟩, -, -, hp, -, -⟩ := hs
  refine ⟨hdb ▸ .fresh functions versions, fun x hx => ?_, fun a ha => ?_⟩
  · simp [State.items, hp] at hx
  · rw [hdb] at ha
    exact absurd ha (Table.not_mem_empty a)

/-- Every entry belongs to an invocation. -/
theorem entry_owner {s : State} (h : Reachable step init s) :
    ∀ e ∈ s.group.entries, ∃ i ∈ s.db.invocations, i.id = e.fields.invocationId := by
  intro e he
  obtain ⟨row, hrow, hc, -⟩ := (outbox_reachable h).carried e he
  obtain ⟨i, hi, hid⟩ := (rows_reachable h).wf.dispatchOwner row hrow
  simp only [carries, decide_eq_true_eq] at hc
  exact ⟨i, hi, hid.trans hc.1.symm⟩

end Serverless.Cluster
