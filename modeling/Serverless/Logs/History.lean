import Serverless.Logs.System
import Serverless.Runtime.LogFiles

/-!
# What the log files hold

The reference to the logs is stored with the attempt, the file is named after the invocation.
The invariant says that the file of an invocation holds what each of its attempts has printed
that refers to it; every step keeps it, except for an execution that leaves something else
in the file.
-/
namespace Serverless.Logs

open Serverless.Library Serverless.Model Serverless.Runtime

variable {x : DockerRuntimeExecutor}

/-! ## What a call does to the attempts -/

/-- Two states of the row of one attempt. -/
structure SameRow (a b : InvocationAttempt) : Prop where
  id : b.id = a.id
  invocationId : b.invocationId = a.invocationId

/-- The reference to the logs is the same, too. -/
structure SameLogs (a b : InvocationAttempt) : Prop extends SameRow a b where
  logsRef : b.logsRef = a.logsRef

theorem SameLogs.refl (a : InvocationAttempt) : SameLogs a a := ⟨⟨rfl, rfl⟩, rfl⟩

/-- No attempt is lost or gets another reference, and a new one has none. -/
structure Extends (db db' : Database) : Prop where
  kept : ∀ a ∈ db.attempts, ∃ b ∈ db'.attempts, SameLogs a b
  origin : ∀ b ∈ db'.attempts, (∃ a ∈ db.attempts, SameLogs a b) ∨
    db.attempts.get b.id = none ∧ b.logsRef = none

theorem Extends.of_eq {db db' : Database} (h : db'.attempts = db.attempts) : Extends db db' where
  kept a ha := ⟨a, h ▸ ha, .refl a⟩
  origin b hb := .inl ⟨b, h ▸ hb, .refl b⟩

theorem Extends.of_insert {db db' : Database} {a : InvocationAttempt}
    (h : db.attempts.insert a = .ok db'.attempts) (ha : a.logsRef = none) : Extends db db' where
  kept b hb := ⟨b, (Table.mem_insert h).mpr (.inl hb), .refl b⟩
  origin b hb := by
    rcases (Table.mem_insert h).mp hb with hb | rfl
    · exact .inl ⟨b, hb, .refl b⟩
    · exact .inr ⟨Table.insert_fresh h, ha⟩

/-- **A call other than `mark_finished` leaves every reference alone.** -/
theorem call_extends {s t : Ledger.State} {c : Ledger.Call} (h : Ledger.step s c = some t)
    (hc : isMarkFinished c = false) : Extends s.db t.db := by
  cases Ledger.step_effect h with
  | unrelated c db hi ha hd => exact .of_eq ha
  | created request version invocationId dispatchId now db hdb =>
    obtain ⟨_, _, -, -, rfl⟩ := insertInvocation_ok hdb
    exact .of_eq rfl
  | dispatched limit now outcomes => exact .of_eq rfl
  | marked message messageId recovered workerId attemptId now hm =>
    rcases hr : markRunning s.db (parseInvocationTask messageId message recovered) workerId
      attemptId now with ⟨db', r⟩
    cases markRunning_cases hr with
    | missing | terminal | superseded | expired | future | late | rejected => exact .of_eq rfl
    | started i attempts hget hs hd hn hv => exact .of_insert hv rfl
  | finished => cases hc
  | recovered staleAfterSeconds maxAttempts now =>
    have hread := Model.readRecovery_of s.db staleAfterSeconds [] now
    constructor
    · intro a ha
      obtain ⟨b, hb, hid, -, -⟩ := commitRecovery_attempt_mem _ maxAttempts ha
      obtain ⟨a', ha', hcase⟩ := hread.mem_attempts hb
      have hsame : SameLogs a' b := by
        rcases hcase with rfl | ⟨p, -, -, rfl⟩
        · exact .refl b
        · exact ⟨⟨rfl, rfl⟩, rfl⟩
      have heq : a' = a := Table.eq_of_key ha' ha (hsame.id.symm.trans hid)
      exact ⟨b, hb, heq ▸ hsame⟩
    · intro b hb
      obtain ⟨a, ha, rfl | ⟨p, -, -, rfl⟩⟩ := hread.mem_attempts hb
      · exact .inl ⟨b, ha, .refl b⟩
      · exact .inl ⟨a, ha, ⟨rfl, rfl⟩, rfl⟩

/-! ## The log file of an attempt -/

/-- Where the logs of an invocation are stored, as its attempts refer to it. -/
def logsRefOf (x : DockerRuntimeExecutor) (invocationId : UUID) : String :=
  storageRef x.workspaceRoot (x.logPath invocationId)

/-- The attempt object of the session that executes the attempt. -/
structure Held (db : Database) (attemptId : UUID) (held : InvocationAttempt) : Prop where
  id : held.id = attemptId
  logsRef : held.logsRef = none
  row : ∃ a ∈ db.attempts, a.id = attemptId ∧ a.invocationId = held.invocationId

theorem Held.of_rows {db db' : Database} {attemptId : UUID} {held : InvocationAttempt}
    (h : Held db attemptId held) (hdb : ∀ a ∈ db.attempts, ∃ b ∈ db'.attempts, SameRow a b) :
    Held db' attemptId held := by
  obtain ⟨a, ha, hid, hinv⟩ := h.row
  obtain ⟨b, hb, hsame⟩ := hdb a ha
  exact ⟨h.id, h.logsRef, b, hb, hsame.id.trans hid, hsame.invocationId.trans hinv⟩

/-- What is known of a job: its object, and where its plan and its result point to. -/
def JobSound (x : DockerRuntimeExecutor) (db : Database) (attemptId : UUID) : Job → Prop
  | .planned held plan => Held db attemptId held ∧
      (∀ spec ∈ plan.spec, spec.invocationId = held.invocationId) ∧
      ∀ result, plan = .finished result → result.logsRef = none
  | .returned held result => Held db attemptId held ∧
      ∀ ref, result.logsRef = some ref → ref = logsRefOf x held.invocationId
  | .finished => True

theorem JobSound.of_rows {db db' : Database} {attemptId : UUID} {job : Job}
    (h : JobSound x db attemptId job) (hdb : ∀ a ∈ db.attempts, ∃ b ∈ db'.attempts, SameRow a b) :
    JobSound x db' attemptId job := by
  cases job with
  | planned held plan => exact ⟨h.1.of_rows hdb, h.2⟩
  | returned held result => exact ⟨h.1.of_rows hdb, h.2⟩
  | finished => trivial

/-- The attempt has a reference to its logs, or its result has one and is still to be recorded. -/
def Refers (s : State) (a : InvocationAttempt) : Prop :=
  a.logsRef ≠ none ∨ ∃ held result, s.jobs a.id = some (.returned held result) ∧
    held.status = .running ∧ result.logsRef ≠ none

/-- The log file of the invocation holds the logs of the attempt. -/
def Kept (x : DockerRuntimeExecutor) (s : State) (a : InvocationAttempt) : Prop :=
  s.files.read (x.logPath a.invocationId) = some ((s.stderr a.id).take x.maxLogBytes)

/-- **The invariant**: the log file of an invocation holds what every attempt that refers to it
has printed. -/
structure Sound (x : DockerRuntimeExecutor) (s : State) : Prop where
  job : ∀ attemptId job, s.jobs attemptId = some job → JobSound x s.ledger.db attemptId job
  unfinished : ∀ a ∈ s.ledger.db.attempts, s.jobs a.id ≠ some .finished → a.logsRef = none
  refs : ∀ a ∈ s.ledger.db.attempts, ∀ ref, a.logsRef = some ref → ref = logsRefOf x a.invocationId
  kept : ∀ a ∈ s.ledger.db.attempts, Refers s a → Kept x s a

theorem sound_init {s : State} (h : init s) : Sound x s := by
  obtain ⟨⟨functions, versions, hledger⟩, hjobs⟩ := h
  have hnone : ∀ a, a ∉ s.ledger.db.attempts := by
    rw [hledger]
    exact fun a => Table.not_mem_empty a
  constructor
  · intro attemptId job hjob
    rw [hjobs] at hjob
    cases hjob
  all_goals exact fun a ha => absurd ha (hnone a)

/-- A row with the same logs refers to them if the old one does. -/
theorem Refers.of_same {s : State} {a b : InvocationAttempt} (h : SameLogs a b) (hb : Refers s b) :
    Refers s a := by
  rw [Refers, h.logsRef, h.id] at hb
  exact hb

theorem Kept.of_row {s : State} {a b : InvocationAttempt} (ha : Kept x s a) (h : SameRow a b) :
    Kept x s b := by
  rw [Kept, h.invocationId, h.id]
  exact ha

/-! ## Steps -/

theorem Sound.call {s : State} (h : Sound x s) {ledger : Ledger.State}
    (hdb : Extends s.ledger.db ledger.db) : Sound x { s with ledger := ledger } where
  job attemptId job hjob := by
    apply (h.job attemptId job hjob).of_rows
    intro a ha
    obtain ⟨b, hb, hsame⟩ := hdb.kept a ha
    exact ⟨b, hb, hsame.toSameRow⟩
  unfinished b hb hjob := by
    rcases hdb.origin b hb with ⟨a, ha, hsame⟩ | ⟨-, hnone⟩
    · rw [hsame.logsRef]
      exact h.unfinished a ha (hsame.id ▸ hjob)
    · exact hnone
  refs b hb ref href := by
    rcases hdb.origin b hb with ⟨a, ha, hsame⟩ | ⟨-, hnone⟩
    · rw [hsame.invocationId]
      exact h.refs a ha ref (hsame.logsRef.symm.trans href)
    · rw [hnone] at href
      cases href
  kept b hb href := by
    rcases hdb.origin b hb with ⟨a, ha, hsame⟩ | ⟨hfresh, hnone⟩
    · exact (h.kept a ha (Refers.of_same hsame href)).of_row hsame.toSameRow
    · rcases href with href | ⟨held, result, hjob, -, -⟩
      · exact absurd hnone href
      · obtain ⟨⟨-, -, a, ha, hid, -⟩, -⟩ := h.job b.id _ hjob
        exact absurd hid (Table.get_eq_none.mp hfresh a ha)

theorem jobs_setJob (s : State) (attemptId : UUID) (job : Job) (id : UUID) :
    (setJob s attemptId job).jobs id = if id = attemptId then some job else s.jobs id :=
  Function.update_apply _ _ _ _

/-- A job that has not returned a result adds no reference. -/
theorem Refers.of_setJob {s : State} {attemptId : UUID} {job : Job} {a : InvocationAttempt}
    (hjob : ∀ held result, job ≠ .returned held result) (h : Refers (setJob s attemptId job) a) :
    Refers s a := by
  rcases h with h | ⟨held, result, ha, hrest⟩
  · exact .inl h
  · rw [jobs_setJob] at ha
    split at ha
    · exact absurd (Option.some.inj ha) (hjob held result)
    · exact .inr ⟨held, result, ha, hrest⟩

theorem Sound.plan {s : State} (h : Sound x s) {attemptId : UUID} {row : InvocationAttempt}
    (hget : s.ledger.db.attempts.get attemptId = some row) (hnone : s.jobs attemptId = none)
    {plan : Plan} (hspec : ∀ spec ∈ plan.spec, spec.invocationId = row.invocationId)
    (hfinished : ∀ result, plan = .finished result → result.logsRef = none) :
    Sound x (setJob s attemptId (.planned row plan)) where
  job id job hjob := by
    rw [jobs_setJob] at hjob
    split at hjob
    · rename_i hid
      subst hid
      cases hjob
      have hrow := Table.get_mem hget
      have hkey : row.id = id := Table.get_key hget
      have href : row.logsRef = none := by
        apply h.unfinished row hrow
        simp [hkey, hnone]
      exact ⟨⟨hkey, href, row, hrow, hkey, rfl⟩, hspec, hfinished⟩
    · exact h.job id job hjob
  unfinished a ha hjob := by
    rw [jobs_setJob] at hjob
    apply h.unfinished a ha
    split at hjob
    · rename_i hid
      simp [hid, hnone]
    · exact hjob
  refs := h.refs
  kept a ha href := h.kept a ha (href.of_setJob fun _ _ => Job.noConfusion)

/-- The session of a planned attempt runs its container. -/
def afterRun (x : DockerRuntimeExecutor) (s : State) (attemptId : UUID) (d : Docker)
    (input left : List UInt8) (held : InvocationAttempt) (plan : Plan) : State :=
  let execution := x.executeCalls d plan
  { setJob s attemptId (.returned held (processedResult execution)) with
    files := x.applyCalls d input left held.invocationId s.files execution.calls
    stderr := Function.update s.stderr attemptId d.stderrBytes }

theorem jobs_afterRun (s : State) (attemptId : UUID) (d : Docker) (input left : List UInt8)
    (held : InvocationAttempt) (plan : Plan) (id : UUID) :
    (afterRun x s attemptId d input left held plan).jobs id =
      if id = attemptId then some (.returned held (processedResult (x.executeCalls d plan)))
      else s.jobs id :=
  Function.update_apply _ _ _ _

theorem Sound.run {s : State} (h : Sound x s) {attemptId : UUID} {held : InvocationAttempt} {plan : Plan}
    (hjob : s.jobs attemptId = some (.planned held plan)) (d : Docker) (input left : List UInt8)
    (hkeep : Logs x d plan → ∀ a ∈ s.ledger.db.attempts, a.id ≠ attemptId →
      a.invocationId = held.invocationId → Refers s a →
      (s.stderr a.id).take x.maxLogBytes = logContents x d left) :
    Sound x (afterRun x s attemptId d input left held plan) := by
  obtain ⟨hheld, hspec, hfinished⟩ := h.job attemptId _ hjob
  have hresult : ∀ ref, (processedResult (x.executeCalls d plan)).logsRef = some ref →
      ref = logsRefOf x held.invocationId ∧ Logs x d plan ∧ d.writeLogs = .ok () :=
    fun ref => processedResult_logsRef hspec hfinished
  constructor
  · intro id job hnew
    rw [jobs_afterRun] at hnew
    split at hnew
    · rename_i hid
      subst hid
      cases hnew
      exact ⟨hheld, fun ref href => (hresult ref href).1⟩
    · exact h.job id job hnew
  · intro a ha hnot
    apply h.unfinished a ha
    intro hfin
    refine hnot ?_
    rw [jobs_afterRun, if_neg, hfin]
    intro hid
    rw [hid, hjob] at hfin
    cases hfin
  · exact h.refs
  · intro a ha href
    show (x.applyCalls d input left held.invocationId s.files (x.executeCalls d plan).calls).read
      (x.logPath a.invocationId) = some ((Function.update s.stderr attemptId d.stderrBytes a.id).take _)
    by_cases hid : a.id = attemptId
    · -- the logs that the result refers to have just been written
      have hnone : a.logsRef = none := by
        apply h.unfinished a ha
        rw [hid, hjob]
        simp
      rcases href with href | ⟨held', result, hret, -, href⟩
      · exact absurd hnone href
      rw [jobs_afterRun, if_pos hid] at hret
      cases hret
      obtain ⟨ref, href⟩ := Option.ne_none_iff_exists'.mp href
      obtain ⟨-, hlogs, hwrite⟩ := hresult ref href
      obtain ⟨b, hb, hbid, hinv⟩ := hheld.row
      have hab : b = a := Table.eq_of_key hb ha (hbid.trans hid.symm)
      rw [← hab, hinv, read_log hspec hlogs, hbid, Function.update_self, logContents, hwrite]
      rfl
    · have hold : Refers s a := by
        rcases href with href | ⟨held', result, hret, hrest⟩
        · exact .inl href
        · rw [jobs_afterRun, if_neg hid] at hret
          exact .inr ⟨held', result, hret, hrest⟩
      rw [Function.update_of_ne hid]
      by_cases hsame : Logs x d plan ∧ a.invocationId = held.invocationId
      · rw [hsame.2, read_log hspec hsame.1, hkeep hsame.1 a ha hid hsame.2 hold]
      · rw [read_log_other hspec (not_and_or.mp hsame)]
        exact h.kept a ha hold

/-- What `mark_finished` leaves of the attempts: one row takes the reference of the result. -/
structure Recorded (db db' : Database) (held : InvocationAttempt) (result : RuntimeExecutionResult) :
    Prop where
  kept : ∀ a ∈ db.attempts, ∃ b ∈ db'.attempts, SameRow a b
  origin : ∀ b ∈ db'.attempts, ∃ a ∈ db.attempts, SameRow a b ∧ (b.logsRef = a.logsRef ∨
    a.id = held.id ∧ held.status = .running ∧
      b.logsRef = changed held.logsRef result.logsRef a.logsRef)

theorem Recorded.of_eq {db db' : Database} {held : InvocationAttempt} {result : RuntimeExecutionResult}
    (h : db'.attempts = db.attempts) : Recorded db db' held result where
  kept a ha := ⟨a, h ▸ ha, rfl, rfl⟩
  origin b hb := ⟨b, h ▸ hb, ⟨rfl, rfl⟩, .inl rfl⟩

theorem Recorded.of_finish {db db' : Database} {held : InvocationAttempt}
    {result : RuntimeExecutionResult} {now : Time} (hrun : held.status = .running)
    (h : db'.attempts = db.attempts.modify held.id (held.finish result now) fun _ => ⟨rfl, rfl⟩) :
    Recorded db db' held result := by
  constructor
  · intro a ha
    refine ⟨_, h ▸ (Table.mem_modify _).mpr ⟨a, ha, rfl⟩, ?_⟩
    split <;> exact ⟨rfl, rfl⟩
  · intro b hb
    rw [h] at hb
    obtain ⟨a, ha, rfl⟩ := (Table.mem_modify _).mp hb
    refine ⟨a, ha, ?_⟩
    split
    · rename_i hid
      exact ⟨⟨rfl, rfl⟩, .inr ⟨hid, hrun, rfl⟩⟩
    · exact ⟨⟨rfl, rfl⟩, .inl rfl⟩

theorem markFinished_recorded {db db' : Database} {invocationId attemptId : UUID}
    {held : InvocationAttempt} {result : RuntimeExecutionResult} {decision : RetryDecision}
    {dispatchId : UUID} {now : Time} {r : Except CompleteError InvocationAttempt}
    (h : markFinished db invocationId attemptId (some held) result decision dispatchId now = (db', r)) :
    Recorded db db' held result := by
  cases markFinished_cases h with
  | raised | rejected => exact .of_eq rfl
  | retried i a dispatches hget hload hinv hi ha =>
    obtain rfl := eq_of_loadAttempt hload
    exact .of_finish ha rfl
  | completed i a status hget hload hinv hi ha =>
    obtain rfl := eq_of_loadAttempt hload
    exact .of_finish ha rfl

/-- The session of a returned attempt records its result. -/
def afterFinish (s : State) (attemptId : UUID) (db : Database) : State :=
  { setJob s attemptId .finished with ledger := { s.ledger with db := db } }

theorem jobs_afterFinish (s : State) (attemptId : UUID) (db : Database) (id : UUID) :
    (afterFinish s attemptId db).jobs id = if id = attemptId then some .finished else s.jobs id :=
  Function.update_apply _ _ _ _

theorem Sound.finish {s : State} (h : Sound x s) {attemptId : UUID} {held : InvocationAttempt}
    {result : RuntimeExecutionResult} (hjob : s.jobs attemptId = some (.returned held result))
    {db : Database} (hdb : Recorded s.ledger.db db held result) :
    Sound x (afterFinish s attemptId db) := by
  obtain ⟨hheld, href⟩ := h.job attemptId _ hjob
  -- the reference of the row is the old one, or that of the result
  have hrow : ∀ b ∈ db.attempts, ∃ a ∈ s.ledger.db.attempts, SameRow a b ∧ (b.logsRef = a.logsRef ∨
      a.id = attemptId ∧ held.status = .running ∧ b.logsRef = result.logsRef) := by
    intro b hb
    obtain ⟨a, ha, hsame, hold | ⟨hid, hrun, hnew⟩⟩ := hdb.origin b hb
    · exact ⟨a, ha, hsame, .inl hold⟩
    · have hid : a.id = attemptId := hid.trans hheld.id
      have hnone : a.logsRef = none := by
        apply h.unfinished a ha
        simp [hid, hjob]
      rw [hheld.logsRef, hnone, changed_self] at hnew
      exact ⟨a, ha, hsame, .inr ⟨hid, hrun, hnew⟩⟩
  have hinv : ∀ a ∈ s.ledger.db.attempts, a.id = attemptId → a.invocationId = held.invocationId := by
    intro a ha hid
    obtain ⟨b, hb, hbid, hbinv⟩ := hheld.row
    rw [← Table.eq_of_key hb ha (hbid.trans hid.symm), hbinv]
  constructor
  · intro id job hnew
    rw [jobs_afterFinish] at hnew
    split at hnew
    · cases hnew
      trivial
    · exact (h.job id job hnew).of_rows hdb.kept
  · intro b hb hnot
    obtain ⟨a, ha, hsame, hold | ⟨hid, -, -⟩⟩ := hrow b hb
    · rw [hold]
      apply h.unfinished a ha
      rw [jobs_afterFinish, hsame.id] at hnot
      split at hnot
      · exact absurd rfl hnot
      · exact hnot
    · rw [jobs_afterFinish, hsame.id, if_pos hid] at hnot
      exact absurd rfl hnot
  · intro b hb ref hb'
    obtain ⟨a, ha, hsame, hold | ⟨hid, -, hnew⟩⟩ := hrow b hb
    · rw [hsame.invocationId]
      exact h.refs a ha ref (hold.symm.trans hb')
    · rw [hsame.invocationId, hinv a ha hid]
      exact href ref (hnew.symm.trans hb')
  · intro b hb hb'
    obtain ⟨a, ha, hsame, hcase⟩ := hrow b hb
    have hkept : Kept x s a := by
      apply h.kept a ha
      rcases hb' with hb' | ⟨held', result', hret, hrest⟩
      · rcases hcase with hold | ⟨hid, hrun, hnew⟩
        · exact .inl (hold ▸ hb')
        · exact .inr ⟨held, result, hid ▸ hjob, hrun, hnew ▸ hb'⟩
      · rw [jobs_afterFinish, hsame.id] at hret
        split at hret
        · cases hret
        · exact .inr ⟨held', result', hret, hrest⟩
    exact hkept.of_row hsame

end Serverless.Logs
