import Serverless.Ledger.Numbering
import Serverless.Model.Progress
import Serverless.Model.Runtime

/-!
# Invocation records

What the columns of an invocation say about each other and about its last attempt, as
long as every result that is recorded was made by one of the constructors of
`RuntimeExecutionResult` or by `build_success_result`. The invariant has to say more than
the columns of finished invocations: nothing but a finished invocation has a result, and
an invocation waits either before its first attempt or behind a failed one.
-/
namespace Serverless.Ledger

open Serverless.Library Serverless.Model

/-- Results that the program can make. -/
inductive Made : RuntimeExecutionResult → Prop where
  | succeeded (result : JsonValue) (durationMs : Option Int) (logsRef containerId : Option String)
      (exitCode : Int) : Made (.succeeded result durationMs logsRef containerId exitCode)
  | failed (errorType errorMessage : PyStr) (durationMs : Option Int)
      (logsRef containerId : Option String) (exitCode : Option Int) :
      Made (.failed errorType errorMessage durationMs logsRef containerId exitCode)
  | timedOut (errorMessage : PyStr) (durationMs : Option Int)
      (logsRef containerId : Option String) (exitCode : Option Int) :
      Made (.timedOut errorMessage durationMs logsRef containerId exitCode)
  | built (x : DockerRuntimeExecutor) (host : Host) (invocationId : UUID) (result : JsonValue)
      (durationMs : Int) (logsRef containerId : Option String) (exitCode : Int)
      (made : RuntimeExecutionResult) (files : List File)
      (h : x.buildSuccessResult host invocationId result durationMs logsRef containerId exitCode =
        .ok (made, files)) : Made made

/-- Every recorded result of a run is one that the program can make. -/
def RecordsMade (_ : State) : Call → Prop
  | .markFinished _ _ result _ _ _ => Made result
  | _ => True

/-- Calls that record no result. -/
def Call.recordsNothing : Call → Bool
  | .markFinished .. => false
  | _ => true

def NoResult (i : Invocation) : Prop := i.resultInline = .null ∧ i.resultRef = none

/-- What the three kinds of made results say. -/
theorem Made.cases {r : RuntimeExecutionResult} (h : Made r) :
    r.status = .succeeded ∧ r.errorType = none ∨
    r.status = .failed ∧ r.errorType ≠ none ∧ r.resultInline = .null ∧ r.resultRef = none ∨
    r.status = .timeout ∧ r.errorType = some ↑"TimeoutError" ∧ r.resultInline = .null ∧
      r.resultRef = none := by
  cases h with
  | succeeded => exact Or.inl ⟨rfl, rfl⟩
  | failed => exact Or.inr (Or.inl ⟨rfl, by simp [RuntimeExecutionResult.failed], rfl, rfl⟩)
  | timedOut => exact Or.inr (Or.inr ⟨rfl, rfl, rfl, rfl⟩)
  | built x host invocationId result durationMs logsRef containerId exitCode made files h =>
    refine Or.inl ?_
    unfold DockerRuntimeExecutor.buildSuccessResult at h
    dsimp only at h
    split at h
    · cases h
      exact ⟨rfl, rfl⟩
    · split at h
      · cases h
      · cases h
        exact ⟨rfl, rfl⟩

/-- The last attempt of an invocation has the property, if there is one. -/
def LastAttempt (db : Database) (i : Invocation) (P : InvocationAttempt → Prop) : Prop :=
  ∀ a ∈ db.attempts, a.invocationId = i.id → a.attemptNumber = i.attemptCount → P a

structure CoherentAt (db : Database) (i : Invocation) : Prop where
  completed : i.completedAt ≠ none ↔ i.status.isTerminal
  waiting : i.status = .queued ∨ i.status = .retrying → i.startedAt = none
  unfinished : ¬ i.status.isTerminal → NoResult i
  queued : i.status = .queued → i.attemptCount = 0
  retrying : i.status = .retrying → LastAttempt db i fun a => a.status = .failed
  running : i.status = .running → LastAttempt db i fun a => i.startedAt = some a.startedAt
  succeeded : i.status = .succeeded →
    1 ≤ i.attemptCount ∧ i.errorType = none ∧ LastAttempt db i fun a => a.status = .succeeded
  failed : i.status = .failed → 1 ≤ i.attemptCount ∧ i.errorType ≠ none ∧ NoResult i ∧
    LastAttempt db i fun a => a.status = .failed
  timeout : i.status = .timeout → i.errorType = some ↑"TimeoutError" ∧ NoResult i ∧
    LastAttempt db i fun a => a.status = .timeout ∨ a.status = .failed
  canceled : i.status ≠ .canceled

def Coherent (db : Database) : Prop := ∀ i ∈ db.invocations, CoherentAt db i

theorem LastAttempt.frame {db db' : Database} {i : Invocation} {P : InvocationAttempt → Prop}
    (h : LastAttempt db i P) (ha : ∀ a ∈ db'.attempts, a.invocationId = i.id → a ∈ db.attempts) :
    LastAttempt db' i P :=
  fun a ham hai han => h a (ha a ham hai) hai han

/-- Only the attempts of the invocation itself matter to its record. -/
theorem CoherentAt.frame {db db' : Database} {i : Invocation} (h : CoherentAt db i)
    (ha : ∀ a ∈ db'.attempts, a.invocationId = i.id → a ∈ db.attempts) : CoherentAt db' i where
  completed := h.completed
  waiting := h.waiting
  unfinished := h.unfinished
  queued := h.queued
  retrying := fun hs => (h.retrying hs).frame ha
  running := fun hs => (h.running hs).frame ha
  succeeded := fun hs =>
    ⟨(h.succeeded hs).1, (h.succeeded hs).2.1, (h.succeeded hs).2.2.frame ha⟩
  failed := fun hs =>
    ⟨(h.failed hs).1, (h.failed hs).2.1, (h.failed hs).2.2.1, (h.failed hs).2.2.2.frame ha⟩
  timeout := fun hs => ⟨(h.timeout hs).1, (h.timeout hs).2.1, (h.timeout hs).2.2.frame ha⟩
  canceled := h.canceled

namespace Coherent

variable {db db' : Database}

/-- One invocation row changes, together with attempts of that invocation only. -/
theorem update {i k : Invocation} (h : Coherent db)
    (hinv : ∀ j ∈ db'.invocations, j = k ∨ j ∈ db.invocations ∧ j.id ≠ i.id)
    (ha : ∀ a ∈ db'.attempts, a.invocationId ≠ i.id → a ∈ db.attempts)
    (hat : CoherentAt db' k) : Coherent db' := by
  intro j hj
  rcases hinv j hj with rfl | ⟨hj, hne⟩
  · exact hat
  · exact (h j hj).frame fun a ham haj => ha a ham (haj.trans_ne hne)

theorem congr (h : Coherent db) (hi : db'.invocations = db.invocations)
    (ha : db'.attempts = db.attempts) : Coherent db' := by
  intro i him
  rw [hi] at him
  exact (h i him).frame fun a ham _ => ha ▸ ham

theorem created {request : CreateRequest} {version : FunctionVersion}
    {invocationId dispatchId : UUID} {now : Time} (h : Coherent db)
    (hc : insertInvocation db request version invocationId dispatchId now = .ok db') :
    Coherent db' := by
  obtain ⟨invocations, dispatches, hi, hd, rfl⟩ := insertInvocation_ok hc
  intro i him
  rcases (Table.mem_insert hi).mp him with him | rfl
  · exact (h i him).frame fun a ha _ => ha
  · constructor
    · exact ⟨fun hx => absurd rfl hx,
        fun hx => absurd hx (show ¬ InvocationStatus.queued.isTerminal by decide)⟩
    · exact fun _ => rfl
    · exact fun _ => ⟨rfl, rfl⟩
    · exact fun _ => rfl
    all_goals simp [newInvocation]

theorem expired {i : Invocation} {now : Time} (h : Coherent db) (hn : Numbered db)
    (hget : db.invocations.get i.id = some i) (hs : i.status = .queued ∨ i.status = .retrying) :
    Coherent (db.expireInvocation i.id now) := by
  have him := Table.get_mem hget
  have hat := h i him
  have hlast : LastAttempt db i fun a => a.status = .failed := by
    rcases hs with hs | hs
    · -- attempts are numbered from one, and none has been counted
      intro a ha hai han
      have hb := ((hn.each i him).numbers a.attemptNumber).mp ⟨a, ha, hai, rfl⟩
      have hzero := hat.queued hs
      omega
    · exact hat.retrying hs
  refine h.update (i := i) (k := i.expire now)
    (fun j hj => Table.mem_modify_cases (by exact fun _ => ⟨rfl, rfl⟩) hget hj)
    (fun a ha _ => ha) ?_
  constructor
  · exact ⟨fun _ => by simp [Invocation.expire, InvocationStatus.isTerminal,
      terminalInvocationStatuses], fun _ => by simp [Invocation.expire]⟩
  case timeout =>
    refine fun _ => ⟨rfl, hat.unfinished (TerminalKept.waiting_not_terminal hs), ?_⟩
    exact fun a ha hai han => Or.inr (hlast a ha hai han)
  all_goals simp [Invocation.expire, InvocationStatus.isTerminal, terminalInvocationStatuses]

theorem started {i : Invocation} {task : InvocationTask} {workerId : Option UUID}
    {attemptId : UUID} {now : Time}
    {attempts : Table InvocationAttempt.id InvocationAttempt.invocationNumber}
    (h : Coherent db) (hn : Numbered db) (hget : db.invocations.get task.invocationId = some i)
    (hs : i.status = .queued ∨ i.status = .retrying)
    (hv : db.attempts.insert (newAttempt task workerId attemptId (i.attemptCount + 1) now) =
      .ok attempts) :
    Coherent { db with
      attempts := attempts
      invocations := db.invocations.modify task.invocationId
        (·.start (i.attemptCount + 1) now) fun _ => ⟨rfl, rfl⟩ } := by
  have him := Table.get_mem hget
  have hid : i.id = task.invocationId := Table.get_key hget
  have hat := h i him
  have hopen := TerminalKept.waiting_not_terminal hs
  have hcount : (i.start (i.attemptCount + 1) now).attemptCount = i.attemptCount + 1 :=
    Nat.max_eq_right (Nat.le_succ _)
  refine h.update (i := i) (k := i.start (i.attemptCount + 1) now)
    (fun j hj => hid ▸ Table.mem_modify_cases (by exact fun _ => ⟨rfl, rfl⟩) hget hj)
    (fun a ha hne => ((Table.mem_insert hv).mp ha).resolve_right ?_) ?_
  · rintro rfl
    exact hne hid.symm
  constructor
  case completed =>
    have hnone : ¬ i.completedAt ≠ none := fun hx => hopen (hat.completed.mp hx)
    exact ⟨fun hx => absurd hx hnone,
      fun hx => absurd hx (show ¬ InvocationStatus.running.isTerminal by decide)⟩
  case unfinished => exact fun _ => hat.unfinished hopen
  case running =>
    intro _ a ha hai han
    rw [hcount] at han
    rcases (Table.mem_insert hv).mp ha with ha | rfl
    · -- the new number is above every old one
      have hb := ((hn.each i him).numbers a.attemptNumber).mp ⟨a, ha, hai, rfl⟩
      omega
    · rfl
  all_goals simp [Invocation.start]

/-- Closing the running attempt. The record of the invocation is established for what its
last attempt has become. -/
theorem close {i : Invocation} {a : InvocationAttempt} {f : Invocation → Invocation}
    {g : InvocationAttempt → InvocationAttempt}
    {dispatches : Table InvocationDispatch.id InvocationDispatch.invocationNumber}
    (hf : ∀ j, (f j).id = j.id ∧ (f j).ownerKey = j.ownerKey)
    (hg : ∀ b, (g b).id = b.id ∧ (g b).invocationNumber = b.invocationNumber)
    (h : Coherent db) (hn : Numbered db) (hget : db.invocations.get i.id = some i)
    (ha : a ∈ db.attempts) (hai : a.invocationId = i.id) (hrun : a.status = .running)
    (hc : (f i).attemptCount = i.attemptCount)
    (hat : ∀ db', (∀ P, P (g a) → LastAttempt db' (f i) P) → CoherentAt db' (f i)) :
    Coherent { db with
      invocations := db.invocations.modify i.id f hf
      attempts := db.attempts.modify a.id g hg
      dispatches := dispatches } := by
  have hgeta : db.attempts.get a.id = some a := Table.get_of_mem ha
  have hnum := (((hn.each i (Table.get_mem hget)).running a ha hai).mp hrun).2
  have hpair : (g a).invocationId = a.invocationId ∧ (g a).attemptNumber = a.attemptNumber := by
    simpa [InvocationAttempt.invocationNumber] using (hg a).2
  refine h.update (fun j hj => Table.mem_modify_cases hf hget hj) (fun b hb hne => ?_)
    (hat _ fun P hP b hb hbi hbn => ?_)
  · rcases Table.mem_modify_cases hg hgeta hb with rfl | ⟨hb, -⟩
    · exact absurd (hpair.1.trans hai) hne
    · exact hb
  · rcases Table.mem_modify_cases hg hgeta hb with rfl | ⟨hb, hk⟩
    · exact hP
    · refine absurd ?_ hk
      rw [Database.attempt_eq_of_number hb ha ((hbi.trans (hf i).1).trans hai.symm)
        ((hbn.trans hc).trans hnum.symm)]

/-- The record after a retry was ordered. -/
private theorem retry_at {db' : Database} {i : Invocation} {a : InvocationAttempt}
    {result : RuntimeExecutionResult} {now : Time} (hs : result.status = .failed)
    (hno : result.resultInline = .null ∧ result.resultRef = none)
    (hlast : ∀ P, P (a.finish result now a) → LastAttempt db' (i.retry result) P) :
    CoherentAt db' (i.retry result) := by
  constructor
  case retrying => exact fun _ => hlast _ (by simpa [InvocationAttempt.finish] using hs)
  case unfinished => exact fun _ => hno
  case completed =>
    exact ⟨fun hx => absurd rfl hx,
      fun hx => absurd hx (show ¬ InvocationStatus.retrying.isTerminal by decide)⟩
  all_goals simp [Invocation.retry]

/-- The record after a final result. -/
private theorem complete_at {db' : Database} {i : Invocation} {a : InvocationAttempt}
    {status : InvocationStatus} {result : RuntimeExecutionResult} {now : Time} (hm : Made result)
    (hs : attemptToInvocationStatus result.status = some status) (hcount : 1 ≤ i.attemptCount)
    (hlast : ∀ P, P (a.finish result now a) → LastAttempt db' (i.complete status result now) P) :
    CoherentAt db' (i.complete status result now) := by
  have hterm := attemptToInvocationStatus_isTerminal hs
  have hstatus : (a.finish result now a).status = result.status := by
    simp [InvocationAttempt.finish]
  have hcompleted : (i.complete status result now).completedAt ≠ none ↔
      (i.complete status result now).status.isTerminal :=
    ⟨fun _ => hterm, fun _ => by simp [Invocation.complete]⟩
  have hunfinished : ¬ (i.complete status result now).status.isTerminal →
      NoResult (i.complete status result now) := fun hx => absurd hterm hx
  rcases hm.cases with ⟨hr, he⟩ | ⟨hr, he, hno⟩ | ⟨hr, he, hno⟩
  · rw [hr] at hs hstatus
    cases hs
    constructor
    case completed => exact hcompleted
    case unfinished => exact hunfinished
    case succeeded => exact fun _ => ⟨hcount, he, hlast _ hstatus⟩
    all_goals simp [Invocation.complete]
  · rw [hr] at hs hstatus
    cases hs
    constructor
    case completed => exact hcompleted
    case unfinished => exact hunfinished
    case failed => exact fun _ => ⟨hcount, he, hno, hlast _ hstatus⟩
    all_goals simp [Invocation.complete]
  · rw [hr] at hs hstatus
    cases hs
    constructor
    case completed => exact hcompleted
    case unfinished => exact hunfinished
    case timeout => exact fun _ => ⟨he, hno, hlast _ (Or.inl hstatus)⟩
    all_goals simp [Invocation.complete]

/-- The record of an invocation whose worker was lost. -/
private theorem lose_at {db' : Database} {i : Invocation} {maxAttempts : Nat} {now : Time}
    (hat : CoherentAt db i) (hrun : i.status = .running) (hcount : 1 ≤ i.attemptCount)
    (hlast : LastAttempt db' (i.lose maxAttempts now i) fun a => a.status = .failed) :
    CoherentAt db' (i.lose maxAttempts now i) := by
  have hopen := TerminalKept.running_not_terminal hrun
  have hno : NoResult (i.lose maxAttempts now i) := by
    obtain ⟨hinline, href⟩ := Invocation.lose_result i maxAttempts now i
    exact ⟨hinline.trans (hat.unfinished hopen).1, href.trans (hat.unfinished hopen).2⟩
  have hfresh : i.completedAt = none := by
    by_contra hx
    exact hopen (hat.completed.mp hx)
  unfold Invocation.lose at hlast hno ⊢
  split at hlast
  · rename_i hmax
    rw [if_pos hmax] at hno ⊢
    simp only [changed_self] at hlast hno ⊢
    constructor
    case completed => simp [InvocationStatus.isTerminal, terminalInvocationStatuses]
    case failed => exact fun _ => ⟨hcount, by simp, hno, hlast⟩
    case unfinished => exact fun _ => hno
    all_goals simp
  · rename_i hmax
    rw [if_neg hmax] at hno ⊢
    simp only [changed_self] at hlast hno ⊢
    constructor
    case completed => simp [hfresh, InvocationStatus.isTerminal, terminalInvocationStatuses]
    case retrying => exact fun _ => hlast
    case unfinished => exact fun _ => hno
    all_goals simp

theorem recovered {staleAfterSeconds maxAttempts : Nat} {locked : List UUID} {r : RecoveryRead}
    (h : Coherent db) (hn : Numbered db) (hr : ReadOf db staleAfterSeconds locked r) :
    Coherent (commitRecovery db r maxAttempts) := by
  refine commitRecovery_rec (P := Coherent) (fun _ => ?_) h
  intro i' hi'
  obtain ⟨i, hi, ⟨rfl, hnot⟩ | ⟨p, hp, rfl, rfl⟩⟩ := hr.flushed_invocations hi'
  · refine (h i' hi).frame fun a ha hai => ?_
    obtain ⟨a₀, ha₀, ⟨rfl, -⟩ | ⟨p, hp, rfl, rfl⟩⟩ := hr.flushed_attempts ha
    · exact ha₀
    · exact absurd ((hr.invocation p hp).2.1.trans hai) (hnot p hp)
  · have hrun := (hr.invocation p hp).2.2
    have hat := hn.each p.2 hi
    obtain ⟨hp1, hp1run, -⟩ := hr.attempt p hp
    have hp1n := ((hat.running p.1 hp1 (hr.invocation p hp).2.1.symm).mp hp1run).2
    refine lose_at (h p.2 hi) hrun (hat.started hrun) fun a ha hai han => ?_
    rw [Invocation.lose_id] at hai
    rw [Invocation.lose_attemptCount] at han
    obtain ⟨a₀, ha₀, ⟨rfl, hnot⟩ | ⟨q, hq, rfl, rfl⟩⟩ := hr.flushed_attempts ha
    · have he := Database.attempt_eq_of_number ha₀ hp1
        (hai.trans (hr.invocation p hp).2.1) (han.trans hp1n.symm)
      exact absurd (congrArg InvocationAttempt.id he).symm (hnot p hp)
    · exact InvocationAttempt.lose_status (hr.attempt q hq).2.1 _ _

theorem marked {task : InvocationTask} {workerId : Option UUID} {attemptId : UUID} {now : Time}
    (h : Coherent db) (hn : Numbered db) (hd : ∃ d ∈ db.dispatches,
      d.invocationId = task.invocationId ∧ d.attemptNumber = task.attemptNumber) :
    Coherent (markRunning db task workerId attemptId now).1 := by
  obtain ⟨d, hdm, hdi, hdn⟩ := hd
  rcases hm : markRunning db task workerId attemptId now with ⟨db', r⟩
  cases markRunning_cases hm with
  | missing | terminal | superseded | future | late | rejected => exact h
  | started i attempts hget hs _ _ hv => exact h.started hn hget hs hv
  | expired i hget ht hs _ =>
    have hid : i.id = task.invocationId := Table.get_key hget
    -- a message of a running invocation is not ahead of its count
    have hwait : i.status = .queued ∨ i.status = .retrying := by
      rcases (InvocationStatus.not_isTerminal_iff _).mp ht with hq | hr | hr
      · exact Or.inl hq
      · have hb := (hn.each i (Table.get_mem hget)).boundRunning d hdm (hdi.trans hid.symm) hr
        have hlt := hs hr
        omega
      · exact Or.inr hr
    have he : Coherent (db.expireInvocation i.id now) := h.expired hn (hid ▸ hget) hwait
    rwa [hid] at he

theorem finished {invocationId attemptId : UUID} {result : RuntimeExecutionResult}
    {policy : RetryPolicy} {n : Nat} {dispatchId : UUID} {now : Time} (h : Coherent db)
    (hn : Numbered db) (hmade : Made result) :
    Coherent (markFinished db invocationId attemptId none result (policy.decide result n)
      dispatchId now).1 := by
  rcases hm : markFinished db invocationId attemptId none result (policy.decide result n)
    dispatchId now with ⟨db', r⟩
  cases markFinished_cases hm with
  | raised | rejected => exact h
  | retried i a dispatches hget ha hinv hi hrun hretry hv =>
    have hid : i.id = invocationId := Table.get_key hget
    subst hid
    have hfailed := (RetryPolicy.decide_shouldRetry hretry).2
    refine h.close (f := (·.retry result)) (g := a.finish result now) (fun _ => ⟨rfl, rfl⟩)
      (fun _ => ⟨rfl, rfl⟩) hn hget (mem_of_loadAttempt ha) hinv hrun rfl
      fun db' hlast => retry_at hfailed ?_ hlast
    rcases hmade.cases with ⟨hs, -⟩ | ⟨-, -, hno⟩ | ⟨-, -, hno⟩
    · rw [hfailed] at hs
      cases hs
    · exact hno
    · exact hno
  | completed i a status hget ha hinv hi hrun _ hs =>
    have hid : i.id = invocationId := Table.get_key hget
    subst hid
    have hcount := (hn.each i (Table.get_mem hget)).started hi
    exact h.close (f := (·.complete status result now)) (g := a.finish result now)
      (fun _ => ⟨rfl, rfl⟩) (fun _ => ⟨rfl, rfl⟩) hn hget (mem_of_loadAttempt ha) hinv hrun rfl
      fun db' hlast => complete_at hmade hs hcount hlast

end Coherent

theorem coherent_step {s t : State} {c : Call} (h : Coherent s.db) (hinv : Inv s)
    (hmade : RecordsMade s c) (he : Effect s c t) : Coherent t.db := by
  cases he with
  | unrelated c db hi ha hd => exact h.congr hi ha
  | created request version invocationId dispatchId now db hc => exact h.created hc
  | dispatched limit now outcomes => exact h.congr rfl rfl
  | marked message messageId recovered workerId attemptId now hm =>
    exact h.marked hinv.numbered (hinv.published message hm)
  | finished invocationId attemptId attempt result policy dispatchId now ha hr =>
    exact h.finished hinv.numbered hmade
  | recovered staleAfterSeconds maxAttempts now =>
    exact h.recovered hinv.numbered (readRecovery_of s.db staleAfterSeconds [] now)

theorem coherent_reachable {s : State} (h : ReachableBy step RecordsMade init s) :
    Coherent s.db := by
  refine h.invariant (I := fun s => Coherent s.db) (fun s hi => ?_) fun hr hi hok hs => ?_
  · obtain ⟨functions, versions, rfl⟩ := hi
    exact fun i him => absurd him (Table.not_mem_empty i)
  · exact coherent_step hi (inv_reachable hr.reachable) hok (step_effect hs)

/-- The attempt that the count names. -/
theorem Numbered.lastAttempt {db : Database} (h : Numbered db) {i : Invocation}
    (hi : i ∈ db.invocations) (hcount : 1 ≤ i.attemptCount) {P : InvocationAttempt → Prop}
    (hlast : LastAttempt db i P) :
    ∃ a ∈ db.attemptsOf i.id, a.attemptNumber = i.attemptCount ∧ P a := by
  obtain ⟨a, ha, hai, han⟩ := ((h.each i hi).numbers i.attemptCount).mpr ⟨hcount, le_rfl⟩
  exact ⟨a, Database.mem_attemptsOf.mpr ⟨ha, hai⟩, han, hlast a ha hai han⟩

/-- **Invocation records are coherent.** -/
theorem records_coherent {s : State} (h : ReachableBy step RecordsMade init s) {i : Invocation}
    (hi : i ∈ s.db.invocations) :
    (i.completedAt ≠ none ↔ i.status.isTerminal) ∧
    (i.status = .queued ∨ i.status = .retrying → i.startedAt = none) ∧
    (i.status = .running → ∃ a ∈ s.db.attemptsOf i.id,
      a.attemptNumber = i.attemptCount ∧ i.startedAt = some a.startedAt) ∧
    (i.status = .succeeded → i.errorType = none ∧ ∃ a ∈ s.db.attemptsOf i.id,
      a.attemptNumber = i.attemptCount ∧ a.status = .succeeded) ∧
    (i.status = .failed → i.errorType ≠ none ∧ i.resultInline = .null ∧ i.resultRef = none ∧
      ∃ a ∈ s.db.attemptsOf i.id, a.attemptNumber = i.attemptCount ∧ a.status = .failed) ∧
    (i.status = .timeout → i.errorType = some ↑"TimeoutError" ∧ i.resultInline = .null ∧
      i.resultRef = none ∧ ∀ a ∈ s.db.attemptsOf i.id, a.attemptNumber = i.attemptCount →
        a.status = .timeout ∨ a.status = .failed) := by
  have hn := (inv_reachable h.reachable).numbered
  have hat := coherent_reachable h i hi
  refine ⟨hat.completed, hat.waiting, fun hs => ?_, fun hs => ?_, fun hs => ?_, fun hs => ?_⟩
  · exact hn.lastAttempt hi ((hn.each i hi).started hs) (hat.running hs)
  · obtain ⟨hcount, he, hlast⟩ := hat.succeeded hs
    exact ⟨he, hn.lastAttempt hi hcount hlast⟩
  · obtain ⟨hcount, he, hno, hlast⟩ := hat.failed hs
    exact ⟨he, hno.1, hno.2, hn.lastAttempt hi hcount hlast⟩
  · obtain ⟨he, hno, hlast⟩ := hat.timeout hs
    refine ⟨he, hno.1, hno.2, fun a ha han => ?_⟩
    obtain ⟨ha, hai⟩ := Database.mem_attemptsOf.mp ha
    exact hlast a ha hai han

/-- The second attempt of `lostWorkerRun` ends with a failure of the user's code. -/
theorem records_coherent_lostWorker : ∃ s, ReachableBy step RecordsMade init s ∧
    ∃ i ∈ s.db.invocations, i.status = .failed ∧ i.completedAt ≠ none ∧ i.errorType ≠ none ∧
      ∃ a ∈ s.db.attemptsOf i.id, a.attemptNumber = i.attemptCount ∧ a.status = .failed := by
  let last : Call := .markFinished 3 8 (.failed "ValueError" "bad input")
    { maxAttempts := 3, jitter := fun _ => 0 } 9 (seconds 22)
  obtain ⟨s, hs, hp⟩ := reachableBy_of_replayWhere step lostWorkerRun
    (fun s => (step s last).any fun t => t.db.invocations.rows.any fun i => i.status = .failed)
    (fun s c (hc : c.recordsNothing = true) => show RecordsMade s c by cases c <;> trivial)
    init_empty (by decide)
  obtain ⟨t, ht, hp⟩ := (Option.any_eq_true _ _).mp hp
  simp only [List.any_eq_true, decide_eq_true_eq] at hp
  obtain ⟨i, hi, hfailed⟩ := hp
  have hmade : RecordsMade s last := Made.failed _ _ _ _ _ _
  have hreach : ReachableBy step RecordsMade init t := hs.next hmade ht
  obtain ⟨hcompleted, -, -, -, hrecord, -⟩ := records_coherent hreach (i := i) hi
  refine ⟨t, hreach, i, hi, hfailed, hcompleted.mpr ?_, (hrecord hfailed).1, (hrecord hfailed).2.2.2⟩
  rw [hfailed]
  decide

end Serverless.Ledger
