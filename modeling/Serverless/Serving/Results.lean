import Serverless.Serving.System

/-!
# Where results come from

A result is kept in three places on its way: the session of the attempt, the result file and the row
of the invocation. The invariant says of each that what it holds is an answer of the handler to the
payload of that very invocation, or an envelope that the package of its version has written itself. So
whatever attempts run at the same time, whichever of them is fenced off and whichever wins, a success is
never another function's, and never the answer to another payload.
-/
namespace Serverless.Serving

open Serverless.Library Serverless.Model Serverless.Runtime Serverless.Ledger

variable {p : Deployed} {x : DockerRuntimeExecutor} {s t : Logs.State} {db db' : Database}

/-! ## Answers to an invocation -/

/-- The package of the version that the invocation is pinned to may answer the call of its handler,
with the payload of the invocation, with this value. -/
def AnswersInvocation (p : Deployed) (x : DockerRuntimeExecutor) (db : Database) (i : Invocation)
    (value : JsonValue) : Prop :=
  ∃ v ∈ db.versions, v.id = i.functionVersionId ∧ ∃ f ∈ db.functions, f.id = v.functionId ∧
    ∃ deadlineMs : Int, 0 ≤ deadlineMs ∧ deadlineMs ≤ 1000 * v.timeoutSeconds ∧
      p.Answers (resolvePath x.workspaceRoot v.packageUri) v.handler (eventOf i.payloadInline)
        ⟨.str i.id.str, .str f.name, .str (toString v.versionNumber), .int deadlineMs,
          .int v.memoryLimitMb⟩ value

/-- The package of the version that the invocation is pinned to may write this value itself. -/
def ClaimedFor (p : Deployed) (x : DockerRuntimeExecutor) (db : Database) (i : Invocation)
    (value : JsonValue) : Prop :=
  ∃ v ∈ db.versions, v.id = i.functionVersionId ∧
    p.Claims (resolvePath x.workspaceRoot v.packageUri) value

/-- A value that the version of the invocation has given for it. -/
def ComesFrom (p : Deployed) (x : DockerRuntimeExecutor) (db : Database) (i : Invocation)
    (value : JsonValue) : Prop :=
  AnswersInvocation p x db i value ∨ ClaimedFor p x db i value

/-- The rows that an answer is about are still there. -/
structure Continues (db db' : Database) : Prop where
  functions : ∀ f ∈ db.functions, f ∈ db'.functions
  versions : ∀ v ∈ db.versions, v ∈ db'.versions
  invocations : ∀ i ∈ db.invocations, ∃ j ∈ db'.invocations, SameWork i j

theorem AnswersInvocation.later {i j : Invocation} {value : JsonValue}
    (h : AnswersInvocation p x db i value) (hdb : Continues db db') (hij : SameWork i j) :
    AnswersInvocation p x db' j value := by
  obtain ⟨v, hv, hvid, f, hf, hfid, ms, hnonneg, hle, hanswers⟩ := h
  refine ⟨v, hdb.versions v hv, hvid.trans hij.version.symm, f, hdb.functions f hf, hfid, ms, hnonneg,
    hle, ?_⟩
  rw [hij.payload, hij.id]
  exact hanswers

theorem ComesFrom.later {i j : Invocation} {value : JsonValue} (h : ComesFrom p x db i value)
    (hdb : Continues db db') (hij : SameWork i j) : ComesFrom p x db' j value := by
  rcases h with h | ⟨v, hv, hvid, hclaims⟩
  · exact .inl (h.later hdb hij)
  · exact .inr ⟨v, hdb.versions v hv, hvid.trans hij.version.symm, hclaims⟩

/-- The specification of a container, and the rows that it was made of. -/
structure SpecFor (db : Database) (spec : RuntimeInvocationSpec) (i : Invocation) (v : FunctionVersion)
    (f : Function) : Prop where
  invocation : i ∈ db.invocations
  version : v ∈ db.versions
  versionId : v.id = i.functionVersionId
  function : f ∈ db.functions
  functionId : f.id = v.functionId
  id : spec.invocationId = i.id
  payload : spec.payload = i.payloadInline
  handler : spec.handler = v.handler
  package : spec.packageUri = v.packageUri
  functionName : spec.functionName = f.name
  functionVersion : spec.functionVersion = v.versionNumber
  memory : spec.memoryLimitMb = v.memoryLimitMb
  timeout : 0 ≤ spec.timeoutSeconds ∧ spec.timeoutSeconds ≤ v.timeoutSeconds

theorem planExecution_specFor {task : InvocationTask} {now : Time} {spec : RuntimeInvocationSpec}
    (h : planExecution db task now = .container spec) : ∃ i v f, SpecFor db spec i v f := by
  unfold planExecution at h
  dsimp only at h
  split at h
  · cases h
  split at h
  · cases h
  rename_i loaded hload
  cases h
  unfold Database.loadInvocationSpec at hload
  dsimp only at hload
  split at hload
  · cases hload
  rename_i i v f hfound
  cases hload
  simp only [Option.bind_eq_bind, Option.bind_eq_some_iff, Option.pure_def, guard] at hfound
  obtain ⟨i', hi, u, -, v', hv, f', hf, he⟩ := hfound
  cases he
  refine ⟨i, v, f, Table.get_mem hi, Table.get_mem hv, Table.get_key hv, Table.get_mem hf, Table.get_key hf,
    rfl, rfl, rfl, rfl, rfl, rfl, rfl, ?_, min_le_left _ _⟩
  exact le_min (Nat.cast_nonneg _) (le_max_left _ _)

theorem SpecFor.later {spec : RuntimeInvocationSpec} {i : Invocation} {v : FunctionVersion} {f : Function}
    (h : SpecFor db spec i v f) (hdb : Continues db db') : ∃ j, j.id = i.id ∧ SpecFor db' spec j v f := by
  obtain ⟨j, hj, hij⟩ := hdb.invocations i h.invocation
  exact ⟨j, hij.id, { h with
    invocation := hj
    version := hdb.versions v h.version
    versionId := h.versionId.trans hij.version.symm
    function := hdb.functions f h.function
    id := h.id.trans hij.id.symm
    payload := h.payload.trans hij.payload.symm }⟩

theorem deadlineMs_bounds {spec : RuntimeInvocationSpec} {limit : Nat}
    (h : 0 ≤ spec.timeoutSeconds ∧ spec.timeoutSeconds ≤ limit) :
    0 ≤ spec.deadlineMs ∧ spec.deadlineMs ≤ 1000 * limit := by
  rw [RuntimeInvocationSpec.deadlineMs, if_pos h.1]
  refine ⟨Int.floor_nonneg.mpr (by linarith [h.1]), ?_⟩
  have hfloor : (⌊spec.timeoutSeconds * 1000⌋ : ℚ) ≤ spec.timeoutSeconds * 1000 := Int.floor_le _
  have hlimit : (⌊spec.timeoutSeconds * 1000⌋ : ℚ) ≤ (1000 * limit : Int) := by
    push_cast
    linarith [h.2]
  exact_mod_cast hlimit

/-- What the container gives for the specification, it gives for the invocation. -/
theorem SpecFor.comesFrom {spec : RuntimeInvocationSpec} {i : Invocation} {v : FunctionVersion}
    {f : Function} (h : SpecFor db spec i v f) {value : JsonValue}
    (ha : p.Answers (packagePathOf x spec) spec.handler spec.event spec.context value ∨
      p.Claims (packagePathOf x spec) value) : ComesFrom p x db i value := by
  have hms := deadlineMs_bounds h.timeout
  rw [packagePathOf, h.package, h.handler, RuntimeInvocationSpec.event, h.payload,
    RuntimeInvocationSpec.context, h.id, h.functionName, h.functionVersion, h.memory] at ha
  rcases ha with ha | ha
  · exact .inl ⟨v, h.version, h.versionId, f, h.function, h.functionId, spec.deadlineMs, hms.1, hms.2, ha⟩
  · exact .inr ⟨v, h.version, h.versionId, ha⟩

/-- What the message holds besides the payload is small. -/
theorem SpecFor.carried {spec : RuntimeInvocationSpec} {i : Invocation} {v : FunctionVersion}
    {f : Function} (h : SpecFor db spec i v f) (hfits : FitsLimits v)
    (hpayload : Json.Carried p.F i.payloadInline) : spec.Carried p.F := by
  have hms := deadlineMs_bounds h.timeout
  have hlimits : (v.memoryLimitMb : Int) ≤ 2147483647 ∧ (v.timeoutSeconds : Int) ≤ 2147483647 :=
    ⟨hfits.1.2, hfits.2.2⟩
  have hshort : 13 ≤ Json.maxStrDigits := by decide
  refine ⟨h.payload ▸ hpayload, Json.shortInt_of_lt hshort (by omega), Json.shortInt_of_lt hshort ?_⟩
  have hmemory := h.memory
  omega

/-! ## What a step leaves of the rows -/

theorem function_kept {a b : Ledger.State} {c : Call} (h : Ledger.step a c = some b) {f : Function}
    (hf : f ∈ a.db.functions) : f ∈ b.db.functions := by
  rcases registry_step h with ⟨he, -⟩ | ⟨row, rfl, -⟩ | ⟨row, rfl, -⟩
  · exact he ▸ hf
  · cases h
    cases hi : a.db.functions.insert row with
    | error v => exact hf
    | ok functions => exact (Table.mem_insert hi).mpr (.inl hf)
  · cases h
    cases hi : a.db.versions.insert row with
    | error v => exact hf
    | ok versions => exact hf

/-- A row after a step: an old record, which has not become a success, or a new one. -/
def RowFrom (db : Database) (new : Invocation → Prop) (j : Invocation) : Prop :=
  (∃ i ∈ db.invocations, SameWork i j ∧ (j.status = .succeeded → j = i)) ∨ new j

theorem RowFrom.old {new : Invocation → Prop} {j : Invocation} (h : j ∈ db.invocations) :
    RowFrom db new j := .inl ⟨j, h, .refl j, fun _ => rfl⟩

/-- An update of one row that makes no success of it. -/
theorem RowFrom.modify {new : Invocation → Prop} {id : UUID} {g : Invocation → Invocation}
    (hg : ∀ r, (g r).id = r.id ∧ (g r).ownerKey = r.ownerKey) {j : Invocation}
    (hj : j ∈ db.invocations.modify id g hg) (hwork : ∀ r, SameWork r (g r))
    (hopen : ∀ r, (g r).status ≠ .succeeded) : RowFrom db new j := by
  obtain ⟨i, hi, rfl⟩ := (Table.mem_modify hg).mp hj
  split
  · exact .inl ⟨i, hi, hwork i, fun hs => absurd hs (hopen i)⟩
  · exact .old hi

/-- What a creation adds. -/
def CreatedBy (db : Database) (c : Call) (j : Invocation) : Prop :=
  ∃ request version invocationId dispatchId now,
    c = .createInvocation request invocationId dispatchId now ∧
      j = newInvocation request version invocationId now ∧ db.invocations.get invocationId = none

/-- **A call other than `mark_finished` makes no success.** -/
theorem call_rows {a b : Ledger.State} {c : Call} (h : Ledger.step a c = some b)
    (hc : Logs.isMarkFinished c = false) {j : Invocation} (hj : j ∈ b.db.invocations) :
    RowFrom a.db (CreatedBy a.db c) j := by
  cases step_effect h with
  | unrelated c db hi ha hd => exact .old (hi ▸ hj)
  | created request version invocationId dispatchId now db hdb =>
    obtain ⟨_, _, hi, -, rfl⟩ := insertInvocation_ok hdb
    rcases (Table.mem_insert hi).mp hj with hj | rfl
    · exact .old hj
    · exact .inr ⟨request, version, invocationId, dispatchId, now, rfl, rfl, Table.insert_fresh hi⟩
  | dispatched limit now outcomes => exact .old hj
  | marked message messageId recovered workerId attemptId now hm =>
    rcases hr : markRunning a.db (parseInvocationTask messageId message recovered) workerId
      attemptId now with ⟨db', r⟩
    rw [hr] at hj
    cases markRunning_cases hr with
    | missing | terminal | superseded | future | late | rejected => exact .old hj
    | expired | started =>
      refine .modify (by exact fun _ => ⟨rfl, rfl⟩) hj
        (fun r => ⟨⟨rfl, rfl, rfl, rfl, rfl⟩, rfl, rfl, rfl⟩) fun r hs => ?_
      cases hs
  | finished => cases hc
  | recovered staleAfterSeconds maxAttempts now =>
    have hread := readRecovery_of a.db staleAfterSeconds [] now
    obtain ⟨i, hi, ⟨rfl, -⟩ | ⟨q, hq, rfl, rfl⟩⟩ := hread.mem_invocations hj
    · exact .old hi
    · have hrun : q.2.status = .running := (hread.invocation q hq).2.2
      refine .inl ⟨q.2, hi, (Moves.lose hrun maxAttempts _).sameWork, fun hs => ?_⟩
      rw [Invocation.lose_status hrun] at hs
      split at hs <;> cases hs

theorem call_continues {a b : Ledger.State} {c : Call} (h : Ledger.step a c = some b)
    (hc : Logs.isMarkFinished c = false) : Continues a.db b.db where
  functions f hf := function_kept h hf
  versions v hv := version_kept h hv
  invocations i hi := by
    obtain ⟨j, hj, hid⟩ := (step_effect h).invocation_mem hi
    rcases call_rows h hc hj with ⟨i', hi', hwork, -⟩ | ⟨_, _, k, _, _, -, rfl, hnone⟩
    · exact ⟨j, hj, Table.eq_of_key hi' hi (hwork.id.symm.trans hid) ▸ hwork⟩
    · exact absurd hid.symm (Table.get_eq_none.mp hnone i hi)

/-- What `mark_finished` makes a success of: the running invocation takes the result. -/
def FinishedWith (db : Database) (invocationId : UUID) (result : RuntimeExecutionResult)
    (j : Invocation) : Prop :=
  ∃ i ∈ db.invocations, SameWork i j ∧ i.id = invocationId ∧ result.status = .succeeded ∧
    j.resultInline = result.resultInline ∧ j.resultRef = result.resultRef

theorem attemptToInvocationStatus_succeeded {status : InvocationAttemptStatus}
    (h : attemptToInvocationStatus status = some .succeeded) : status = .succeeded := by
  cases status with
  | succeeded => rfl
  | running | failed | timeout => cases h

theorem finish_rows {invocationId attemptId : UUID} {held : InvocationAttempt}
    {result : RuntimeExecutionResult} {decision : RetryDecision} {dispatchId : UUID} {now : Time}
    {r : Except CompleteError InvocationAttempt}
    (h : markFinished db invocationId attemptId (some held) result decision dispatchId now = (db', r))
    {j : Invocation} (hj : j ∈ db'.invocations) : RowFrom db (FinishedWith db invocationId result) j := by
  cases markFinished_cases h with
  | raised | rejected => exact .old hj
  | retried i a dispatches hget hload hinv hi ha hretry hv =>
    refine .modify (by exact fun _ => ⟨rfl, rfl⟩) hj
      (fun r => ⟨⟨rfl, rfl, rfl, rfl, rfl⟩, rfl, rfl, rfl⟩) fun r hs => ?_
    cases hs
  | completed i a status hget hload hinv hi ha hretry hs =>
    obtain ⟨k, hk, rfl⟩ := (Table.mem_modify (by exact fun _ => ⟨rfl, rfl⟩)).mp hj
    split
    · rename_i hid
      have hwork : SameWork k (k.complete status result now) := ⟨⟨rfl, rfl, rfl, rfl, rfl⟩, rfl, rfl, rfl⟩
      by_cases hsucceeded : status = .succeeded
      · refine .inr ⟨k, hk, hwork, hid, ?_, rfl, rfl⟩
        exact attemptToInvocationStatus_succeeded (hsucceeded ▸ hs)
      · exact .inl ⟨k, hk, hwork, fun hstatus => absurd hstatus hsucceeded⟩
    · exact .old hk

theorem finish_continues {invocationId attemptId : UUID} {held : InvocationAttempt}
    {result : RuntimeExecutionResult} {decision : RetryDecision} {dispatchId : UUID} {now : Time}
    {r : Except CompleteError InvocationAttempt}
    (h : markFinished db invocationId attemptId (some held) result decision dispatchId now = (db', r)) :
    Continues db db' := by
  have hrefl : Continues db db := ⟨fun _ => id, fun _ => id, fun i hi => ⟨i, hi, .refl i⟩⟩
  cases markFinished_cases h with
  | raised | rejected => exact hrefl
  | retried | completed =>
    refine ⟨fun _ => id, fun _ => id, fun i hi => ?_⟩
    refine ⟨_, (Table.mem_modify (by exact fun _ => ⟨rfl, rfl⟩)).mpr ⟨i, hi, rfl⟩, ?_⟩
    split
    · exact ⟨⟨rfl, rfl, rfl, rfl, rfl⟩, rfl, rfl, rfl⟩
    · exact .refl i

/-! ## The invariant -/

/-- The value has been given for the invocation with this identifier, and is recorded like this. -/
def ResultOf (p : Deployed) (x : DockerRuntimeExecutor) (db : Database) (invocationId : UUID)
    (inline : JsonValue) (ref : Option String) : Prop :=
  ∃ i ∈ db.invocations, i.id = invocationId ∧
    ∃ value, ComesFrom p x db i value ∧ RecordedAs x invocationId value inline ref

theorem ResultOf.later {invocationId : UUID} {inline : JsonValue} {ref : Option String}
    (h : ResultOf p x db invocationId inline ref) (hdb : Continues db db') :
    ResultOf p x db' invocationId inline ref := by
  obtain ⟨i, hi, hid, value, hfrom, hrecorded⟩ := h
  obtain ⟨j, hj, hij⟩ := hdb.invocations i hi
  exact ⟨j, hj, hij.id.trans hid, value, hfrom.later hdb hij, hrecorded⟩

/-- What is known of the session of an attempt. -/
def JobAnswers (p : Deployed) (x : DockerRuntimeExecutor) (db : Database) : Logs.Job → Prop
  | .planned _ (.finished result) => result.status ≠ .succeeded
  | .planned _ (.raised _) | .finished => True
  | .planned held (.container spec) => ∃ i v f, SpecFor db spec i v f ∧ i.id = held.invocationId
  | .returned held result => result.status = .succeeded →
      ResultOf p x db held.invocationId result.resultInline result.resultRef

theorem JobAnswers.later {job : Logs.Job} (h : JobAnswers p x db job) (hdb : Continues db db') :
    JobAnswers p x db' job := by
  cases job with
  | planned held plan =>
    cases plan with
    | finished | raised => exact h
    | container spec =>
      obtain ⟨i, v, f, hspec, hid⟩ := h
      obtain ⟨j, hji, hspec'⟩ := hspec.later hdb
      exact ⟨j, v, f, hspec', hji.trans hid⟩
  | returned held result => exact fun hs => (h hs).later hdb
  | finished => trivial

/-- **The invariant**: every success, in a session or in a row, has been given for its invocation. -/
structure Answered (p : Deployed) (x : DockerRuntimeExecutor) (s : Logs.State) : Prop where
  payload : ∀ i ∈ s.ledger.db.invocations, Json.Carried p.F i.payloadInline
  job : ∀ attemptId job, s.jobs attemptId = some job → JobAnswers p x s.ledger.db job
  stored : ∀ i ∈ s.ledger.db.invocations, i.status = .succeeded →
    ResultOf p x s.ledger.db i.id i.resultInline i.resultRef

namespace Answered

theorem init (h : Logs.init s) : Answered p x s := by
  obtain ⟨⟨functions, versions, hledger⟩, hjobs⟩ := h
  have hnone : ∀ i, i ∉ s.ledger.db.invocations := by
    rw [hledger]
    exact fun i => Table.not_mem_empty i
  refine ⟨fun i hi => absurd hi (hnone i), fun attemptId job hjob => ?_, fun i hi => absurd hi (hnone i)⟩
  rw [hjobs] at hjob
  cases hjob

/-- A step that changes the database only. -/
theorem of_rows (h : Answered p x s) {new : Invocation → Prop} (hdb : Continues s.ledger.db db)
    (hrows : ∀ j ∈ db.invocations, RowFrom s.ledger.db new j)
    (hpayload : ∀ j, new j → Json.Carried p.F j.payloadInline)
    (hstored : ∀ j ∈ db.invocations, new j → j.status = .succeeded →
      ResultOf p x db j.id j.resultInline j.resultRef) {stream : List StreamMessage} :
    Answered p x { s with ledger := ⟨db, stream⟩ } where
  payload j hj := by
    rcases hrows j hj with ⟨i, hi, hij, -⟩ | hnew
    · rw [hij.payload]
      exact h.payload i hi
    · exact hpayload j hnew
  job attemptId job hjob := (h.job attemptId job hjob).later hdb
  stored j hj hs := by
    rcases hrows j hj with ⟨i, hi, -, hsame⟩ | hnew
    · obtain rfl := hsame hs
      exact (h.stored j hi hs).later hdb
    · exact hstored j hj hnew hs

/-- A step that changes one session only. -/
theorem of_job (h : Answered p x s) {attemptId : UUID} {job : Logs.Job}
    (hjob : JobAnswers p x s.ledger.db job) : Answered p x (Logs.setJob s attemptId job) where
  payload := h.payload
  job id job' hj := by
    rw [Logs.jobs_setJob] at hj
    split at hj
    · cases hj
      exact hjob
    · exact h.job id job' hj
  stored := h.stored

theorem call (h : Answered p x s) {c : Call} {ledger : Ledger.State}
    (hs : Ledger.step s.ledger c = some ledger) (hc : Logs.isMarkFinished c = false)
    (hok : Hosted p x s (.call c)) : Answered p x { s with ledger := ledger } := by
  refine h.of_rows (call_continues hs hc) (fun j hj => call_rows hs hc hj) ?_ ?_
  · rintro j ⟨request, version, invocationId, dispatchId, now, rfl, rfl, -⟩
    exact hok
  · rintro j hj ⟨request, version, invocationId, dispatchId, now, rfl, rfl, -⟩ hstatus
    cases hstatus

theorem plan (h : Answered p x s) {attemptId : UUID} {row : InvocationAttempt} {task : InvocationTask}
    {now : Time} (hid : row.invocationId = task.invocationId) :
    Answered p x (Logs.setJob s attemptId (.planned row (planExecution s.ledger.db task now))) := by
  apply h.of_job
  cases hplan : planExecution s.ledger.db task now with
  | finished result =>
    rw [planExecution_finished hplan]
    exact InvocationAttemptStatus.noConfusion
  | raised e => trivial
  | container spec =>
    obtain ⟨i, v, f, hspec⟩ := planExecution_specFor hplan
    refine ⟨i, v, f, hspec, ?_⟩
    have hmem : spec ∈ (planExecution s.ledger.db task now).spec := by
      rw [hplan]
      rfl
    rw [← hspec.id, planExecution_invocationId hmem, hid]

theorem run (h : Answered p x s) (hlib : x.lib = Json.pyLib p.F p.repr) {attemptId : UUID}
    {held : InvocationAttempt} {plan : Plan} (hjob : s.jobs attemptId = some (.planned held plan))
    {d : Docker} {input left : List UInt8} (hok : Hosted p x s (.run attemptId d input left)) :
    Answered p x (Logs.afterRun x s attemptId d input left held plan) := by
  have hsession := h.job attemptId _ hjob
  have hanswers : JobAnswers p x s.ledger.db
      (.returned held (processedResult (x.executeCalls d plan))) := by
    intro hs
    unfold processedResult at hs ⊢
    split at hs
    · rename_i result hrun
      cases plan with
      | finished result' =>
        cases hrun
        exact absurd hs hsession
      | raised e => cases hrun
      | container spec =>
        obtain ⟨i, v, f, hspec, hid⟩ := hsession
        obtain ⟨hlimits, hruns⟩ := hok
        have hcarried : spec.Carried p.F :=
          hspec.carried (hlimits v hspec.version) (h.payload i hspec.invocation)
        obtain ⟨value, hvalue, hrecorded⟩ := (hruns held spec hjob).answers hlib hcarried hrun hs
        rw [hspec.id, hid] at hrecorded
        exact ⟨i, hspec.invocation, hid, value, hspec.comesFrom hvalue, hrecorded⟩
    · cases hs
  exact ⟨h.payload, (h.of_job hanswers).job, h.stored⟩

theorem finish (h : Answered p x s) {attemptId : UUID} {held : InvocationAttempt}
    {result : RuntimeExecutionResult} (hjob : s.jobs attemptId = some (.returned held result))
    {decision : RetryDecision} {dispatchId : UUID} {now : Time} {r : Except CompleteError InvocationAttempt}
    (hm : markFinished s.ledger.db held.invocationId attemptId (some held) result decision dispatchId now =
      (db, r)) : Answered p x (Logs.afterFinish s attemptId db) := by
  have hdb := finish_continues hm
  have hrows : Answered p x { s with ledger := ⟨db, s.ledger.stream⟩ } := by
    refine h.of_rows hdb (fun j hj => finish_rows hm hj) ?_ ?_
    · rintro j ⟨i, hi, hij, -⟩
      rw [hij.payload]
      exact h.payload i hi
    · rintro j - ⟨i, hi, hij, hid, hs, hinline, href⟩ -
      rw [hij.id, hid, hinline, href]
      exact (h.job attemptId _ hjob hs).later hdb
  have hdone : JobAnswers p x db .finished := trivial
  exact hrows.of_job hdone

theorem step (h : Answered p x s) (hlib : x.lib = Json.pyLib p.F p.repr) {e : Logs.Event}
    (hok : Hosted p x s e) (hs : Logs.step x s e = some t) : Answered p x t := by
  cases e with
  | call c =>
    simp only [Logs.step, Option.ite_none_left_eq_some, Bool.not_eq_true, Option.map_eq_some_iff] at hs
    obtain ⟨hc, ledger, hledger, rfl⟩ := hs
    exact h.call hledger hc hok
  | plan attemptId task now =>
    simp only [Logs.step] at hs
    split at hs
    · simp only [Option.ite_none_right_eq_some, Option.some.injEq] at hs
      obtain ⟨hid, rfl⟩ := hs
      exact h.plan hid
    · cases hs
  | run attemptId d input left =>
    simp only [Logs.step] at hs
    split at hs
    · rename_i held plan hjob
      cases hs
      exact h.run hlib hjob hok
    · cases hs
  | finish attemptId policy dispatchId now =>
    simp only [Logs.step] at hs
    split at hs
    · rename_i held result hjob
      cases hs
      exact h.finish hjob rfl
    · cases hs

end Answered

theorem answered_of_reachable (hlib : x.lib = Json.pyLib p.F p.repr)
    (h : ReachableBy (Logs.step x) (Hosted p x) Logs.init s) : Answered p x s :=
  h.invariant (fun _ hi => .init hi) fun _ hi hok hs => hi.step hlib hok hs

/-- **A success comes from the version of its invocation.** Whatever attempts of whatever invocations
run at the same time, an invocation that has succeeded is recorded with a value that the handler of its
version has returned for its payload, in the context of this invocation, or that the package of its
version has written to its output itself. -/
theorem results_come_from_handlers (hlib : x.lib = Json.pyLib p.F p.repr)
    (h : ReachableBy (Logs.step x) (Hosted p x) Logs.init s) {i : Invocation}
    (hi : i ∈ s.ledger.db.invocations) (hs : i.status = .succeeded) :
    ∃ value, (AnswersInvocation p x s.ledger.db i value ∨ ClaimedFor p x s.ledger.db i value) ∧
      RecordedAs x i.id value i.resultInline i.resultRef := by
  obtain ⟨j, hj, hid, value, hfrom, hrecorded⟩ := (answered_of_reachable hlib h).stored i hi hs
  obtain rfl := Table.eq_of_key hj hi hid
  exact ⟨value, hfrom, hrecorded⟩

/-! ## A greeting -/

/-- A greeting of whom the event names, if that makes a text without surrogate pairs. -/
def greeting : JsonValue → PyStr
  | .dict [(_, .str name)] =>
    let text : PyStr := "hello " ++ name
    if CodePoint.Joined text then text else "hello"
  | _ => "hello"

theorem joined_greeting (event : JsonValue) : CodePoint.Joined (greeting event) := by
  unfold greeting
  split
  · dsimp only
    split
    · assumption
    · exact CodePoint.joined_ofString _
  · exact CodePoint.joined_ofString _

/-- A handler that greets. -/
def greet : UserCode := fun _ _ event _ => ⟨[], [], .returned (.str (greeting event))⟩

/-- Every package greets, and none writes past the runner. -/
def greeters : Deployed where
  F := noFloats
  py := ⟨fun _ => "", fun _ => "", fun _ => "", fun _ => "", fun _ _ => []⟩
  repr := fun _ => ""
  packages _ code := code = greet
  writes _ _ := False
  returns hcode _ _ _ _ _ h := by
    subst hcode
    cases h
    exact ⟨.str _ (joined_greeting _), (by decide : 0 < 900)⟩

/-- A container that prints this and exits with zero. -/
def printing (text : List Char) : Docker :=
  { Logs.failing [] with
    wait := fun _ => .ok (.int 0)
    stdout := .ok (.bytes (Utf8.encode text)) }

/-- What `planExecution` makes of the run below. -/
def greetingSpec : RuntimeInvocationSpec where
  invocationId := 3
  functionName := "hello"
  functionVersion := 1
  handler := "main.handler"
  packageUri := "storage/packages/hello.zip"
  payload := .dict [("name", .str "Ada")]
  memoryLimitMb := 256
  cpuLimit := 1 / 2
  timeoutSeconds := 29

def greetingText : List Char := "\x7b\"ok\": true, \"result\": \"hello Ada\"\x7d".toList

/-- Ada's invocation from its acceptance on: it is started after a second and greets her. -/
def greetingRun : List Logs.Event :=
  let message : StreamMessage := ⟨3, 2, 7, 1, 0, seconds 30⟩
  [.call (.createFunction ⟨1, 7, "hello", none⟩),
    .call (.createFunctionVersion (helloVersion 30)),
    .call (.createInvocation
      { ownerId := 7, functionName := "hello", payload := .dict [("name", .str "Ada")] } 3 4 0),
    .call (.dispatchPending 100 (seconds 1) [(.returned, seconds 1)]),
    .call (.markRunning message 1 false none 6 (seconds 1)),
    .plan 6 (parseInvocationTask 1 message false) (seconds 1),
    .run 6 (printing greetingText) (greetingSpec.runtimeInput noFloats) [],
    .finish 6 { maxAttempts := 3, jitter := fun _ => 0 } 9 (seconds 2)]

/-- The payload names one text that has no surrogate pairs. -/
def isName : JsonValue → Bool
  | .dict [(key, .str text)] => decide (CodePoint.Joined key) && decide (CodePoint.Joined text)
  | _ => false

theorem carried_of_isName {v : JsonValue} (h : isName v = true) : Json.Carried noFloats v := by
  unfold isName at h
  split at h
  · rename_i key text
    rw [Bool.and_eq_true, decide_eq_true_eq, decide_eq_true_eq] at h
    exact Json.carried_field h.1 h.2
  · cases h

/-- The container prints what the runner prints when the handler greets. -/
def greets (s : Logs.State) : Logs.Event → Bool
  | .call (.createInvocation request _ _ _) => isName request.payload
  | .call _ | .plan .. | .finish .. => true
  | .run attemptId d input _ =>
    decide (∀ v ∈ s.ledger.db.versions.rows, FitsLimits v) &&
    match s.jobs attemptId with
    | some (.planned _ (.container spec)) =>
      match d.stdout with
      | .ok (.bytes out) =>
        let ran := runnerMain noFloats (greeters.py.callHandler greet spec.handler spec.event spec.context)
        isName spec.payload && decide (0 ≤ spec.timeoutSeconds ∧ spec.timeoutSeconds ≤ 30) &&
          decide (FitsInteger spec.memoryLimitMb) && decide (input = spec.runtimeInput noFloats) &&
          decide (out = Utf8.encode ran.stdout) && decide (ran.exitCode = 0)
      | _ => false
    | _ => true

theorem hosted_of_greets (x : DockerRuntimeExecutor) (s : Logs.State) (e : Logs.Event)
    (h : greets s e = true) : Hosted greeters x s e := by
  unfold Hosted
  split
  · exact carried_of_isName h
  · trivial
  · trivial
  · trivial
  · rename_i attemptId d input left
    simp only [greets, Bool.and_eq_true, decide_eq_true_eq] at h
    obtain ⟨hlimits, h⟩ := h
    refine ⟨fun v hv => hlimits v (Table.mem_rows.mpr hv), fun held spec hjob => ?_⟩
    simp only [hjob] at h
    split at h
    · rename_i out hstdout
      simp only [Bool.and_eq_true, decide_eq_true_eq] at h
      obtain ⟨⟨⟨⟨⟨hname, htimeout⟩, hmemory⟩, hinput⟩, hout⟩, hexit⟩ := h
      have hms : 0 ≤ spec.deadlineMs ∧ spec.deadlineMs ≤ 1000 * (30 : ℕ) := deadlineMs_bounds htimeout
      have hshort : 13 ≤ Json.maxStrDigits := by decide
      have hcarried : spec.Carried noFloats :=
        ⟨carried_of_isName hname, Json.shortInt_of_lt hshort (by omega),
          Json.shortInt_of_lt hshort (by have := hmemory.2; omega)⟩
      refine ⟨hinput, fun v out' stdout hwait hcode hd hread => .inr ⟨greet, false, rfl, ?_⟩⟩
      cases hstdout.symm.trans hd
      cases hread
      rw [hinput, Deployed.ran]
      rw [show greeters.F = noFloats from rfl, readAndCall_runtimeInput greeters.py greet false hcarried]
      exact ⟨hout, hexit⟩
    · cases h

/-- Ada is greeted, and by the handler. -/
theorem results_come_from_handlers_ada :
    ∃ s, ReachableBy (Logs.step demoExecutor) (Hosted greeters demoExecutor) Logs.init s ∧
      ∃ i ∈ s.ledger.db.invocations, i.status = .succeeded ∧
        ∃ value, (AnswersInvocation greeters demoExecutor s.ledger.db i value ∨
            ClaimedFor greeters demoExecutor s.ledger.db i value) ∧
          RecordedAs demoExecutor i.id value i.resultInline i.resultRef := by
  obtain ⟨s, hs, hp⟩ := reachableBy_of_replayWhere (Logs.step demoExecutor) greetingRun
    (fun s => s.ledger.db.invocations.rows.any fun i => i.status = .succeeded)
    (hosted_of_greets demoExecutor) Logs.init_empty (by decide +kernel)
  obtain ⟨i, hi, hstatus⟩ := List.any_eq_true.mp hp
  have hstatus := of_decide_eq_true hstatus
  exact ⟨s, hs, i, hi, hstatus, results_come_from_handlers rfl hs hi hstatus⟩

end Serverless.Serving
