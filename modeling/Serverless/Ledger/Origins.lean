import Serverless.Ledger.Numbering

/-!
# Where the rows come from

Every attempt, dispatch and invocation row after a complete call is an old row with the
columns it was agreed on, or the row that the call has added, with what the call found
when it added it.
-/
namespace Serverless.Ledger

open Serverless.Library Serverless.Model

/-- The attempt was added by this `mark_running`, for this invocation as it was found. -/
structure StartedBy (s : State) (c : Call) (a : InvocationAttempt) (message : StreamMessage)
    (i : Invocation) : Prop where
  call : ∃ messageId recovered workerId attemptId,
    c = .markRunning message messageId recovered workerId attemptId a.startedAt
  published : message ∈ s.stream
  found : s.db.invocations.get message.invocationId = some i
  invocationId : a.invocationId = i.id
  number : a.attemptNumber = i.attemptCount + 1
  early : a.startedAt < i.deadlineAt
  due : message.attemptNumber = i.attemptCount + 1 ∨
    ¬ s.db.scheduledRetry i.id (i.attemptCount + 1)

/-- The call that starts an attempt adds no outbox row. -/
theorem StartedBy.dispatches {s t : State} {c : Call} {a : InvocationAttempt}
    {message : StreamMessage} {i : Invocation} (h : StartedBy s c a message i)
    (hs : step s c = some t) : t.db.dispatches = s.db.dispatches := by
  obtain ⟨messageId, recovered, workerId, attemptId, rfl⟩ := h.call
  simp only [step, if_pos h.published, Option.some.injEq] at hs
  subst hs
  exact markRunning_dispatches rfl

/-- **An attempt row is old, or was started by the call.** -/
theorem Effect.attempt_origin {s t : State} {c : Call} (h : Effect s c t) {a' : InvocationAttempt}
    (ha' : a' ∈ t.db.attempts) :
    (∃ a ∈ s.db.attempts, a.invocationId = a'.invocationId ∧
      a.attemptNumber = a'.attemptNumber ∧ a.startedAt = a'.startedAt) ∨
    ∃ message i, StartedBy s c a' message i := by
  have hold : a' ∈ s.db.attempts → ∃ a ∈ s.db.attempts, a.invocationId = a'.invocationId ∧
      a.attemptNumber = a'.attemptNumber ∧ a.startedAt = a'.startedAt :=
    fun hm => ⟨a', hm, rfl, rfl, rfl⟩
  cases h with
  | unrelated c db hi ha hd => exact Or.inl (hold (ha ▸ ha'))
  | created request version invocationId dispatchId now db hc =>
    obtain ⟨_, _, -, -, rfl⟩ := insertInvocation_ok hc
    exact Or.inl (hold ha')
  | dispatched limit now outcomes => exact Or.inl (hold ha')
  | marked message messageId recovered workerId attemptId now hm =>
    rcases hr : markRunning s.db (parseInvocationTask messageId message recovered) workerId
      attemptId now with ⟨db', r⟩
    rw [hr] at ha'
    cases markRunning_cases hr with
    | missing | terminal | superseded | expired | future | late | rejected =>
      exact Or.inl (hold ha')
    | started i attempts hget hs hd hn hv =>
      rcases (Table.mem_insert hv).mp ha' with ha' | rfl
      · exact Or.inl (hold ha')
      · refine Or.inr ⟨message, i, ⟨messageId, recovered, workerId, attemptId, rfl⟩, hm, hget,
          (Table.get_key hget).symm, rfl, hd, ?_⟩
        exact hn.imp_right fun hx => hx.2.2
  | finished invocationId attemptId attempt result policy dispatchId now ha hr =>
    rcases hm : markFinished s.db invocationId attemptId none result
      (policy.decide result attempt.attemptNumber) dispatchId now with ⟨db', r⟩
    rw [hm] at ha'
    -- the flush of `mark_finished` leaves the three columns alone
    have hflush : ∀ {b : InvocationAttempt}, a' ∈ (s.db.finishAttempt b result now).attempts →
        ∃ a ∈ s.db.attempts, a.invocationId = a'.invocationId ∧
          a.attemptNumber = a'.attemptNumber ∧ a.startedAt = a'.startedAt := by
      intro b hb
      obtain ⟨a, ha, rfl⟩ := (Table.mem_modify (by exact fun _ => ⟨rfl, rfl⟩)).mp hb
      refine ⟨a, ha, ?_⟩
      split <;> exact ⟨rfl, rfl, rfl⟩
    cases markFinished_cases hm with
    | raised | rejected => exact Or.inl (hold ha')
    | retried i a dispatches => exact Or.inl (hflush ha')
    | completed i a status => exact Or.inl (hflush ha')
  | recovered staleAfterSeconds maxAttempts now =>
    have hread := readRecovery_of s.db staleAfterSeconds [] now
    obtain ⟨a, ha, ⟨rfl, -⟩ | ⟨p, -, rfl, rfl⟩⟩ := hread.mem_attempts ha'
    · exact Or.inl (hold ha)
    · exact Or.inl ⟨p.1, ha, rfl, rfl, rfl⟩

/-- **A dispatch row is old, or its pair is new to both tables.** -/
theorem Effect.dispatch_origin {s t : State} {c : Call} (hn : Numbered s.db) (h : Effect s c t)
    {d' : InvocationDispatch} (hd' : d' ∈ t.db.dispatches) :
    (∃ d ∈ s.db.dispatches, d.invocationId = d'.invocationId ∧
      d.attemptNumber = d'.attemptNumber ∧ d.availableAt = d'.availableAt) ∨
    (∀ d ∈ s.db.dispatches, d.invocationId = d'.invocationId →
      d.attemptNumber ≠ d'.attemptNumber) ∧
    ∀ a ∈ s.db.attempts, a.invocationId = d'.invocationId → a.attemptNumber ≠ d'.attemptNumber := by
  have hold : d' ∈ s.db.dispatches → ∃ d ∈ s.db.dispatches, d.invocationId = d'.invocationId ∧
      d.attemptNumber = d'.attemptNumber ∧ d.availableAt = d'.availableAt :=
    fun hm => ⟨d', hm, rfl, rfl, rfl⟩
  have hfresh : ∀ {dispatches}, s.db.dispatches.insert d' = .ok dispatches →
      ∀ d ∈ s.db.dispatches, d.invocationId = d'.invocationId →
        d.attemptNumber ≠ d'.attemptNumber := by
    intro dispatches hv d hd hi hnum
    refine Table.insert_no_collision hv hd rfl ?_
    rw [InvocationDispatch.invocationNumber, hi, hnum]
  cases h with
  | unrelated c db hi ha hd => exact Or.inl (hold (hd ▸ hd'))
  | created request version invocationId dispatchId now db hc =>
    obtain ⟨invocations, dispatches, hi, hd, rfl⟩ := insertInvocation_ok hc
    rcases (Table.mem_insert hd).mp hd' with hd' | rfl
    · exact Or.inl (hold hd')
    · refine Or.inr ⟨hfresh hd, fun a ha hai => absurd hai ?_⟩
      exact hn.no_attempt (Table.insert_fresh hi) a ha
  | dispatched limit now outcomes =>
    obtain ⟨d, hd, -, hrest⟩ := commitDispatches_origin hd'
    exact Or.inl ⟨d, hd, hrest⟩
  | marked message messageId recovered workerId attemptId now hm =>
    rcases hr : markRunning s.db (parseInvocationTask messageId message recovered) workerId
      attemptId now with ⟨db', r⟩
    rw [hr] at hd'
    exact Or.inl (hold (markRunning_dispatches hr ▸ hd'))
  | finished invocationId attemptId attempt result policy dispatchId now ha hr =>
    rcases hm : markFinished s.db invocationId attemptId none result
      (policy.decide result attempt.attemptNumber) dispatchId now with ⟨db', r⟩
    rw [hm] at hd'
    cases markFinished_cases hm with
    | raised | rejected | completed => exact Or.inl (hold hd')
    | retried i a dispatches hget hload hinv hi hrun _ hv =>
      rcases (Table.mem_insert hv).mp hd' with hd' | rfl
      · exact Or.inl (hold hd')
      · -- the retry takes the number after the last attempt
        refine Or.inr ⟨hfresh hv, fun b hb hbi hbn => ?_⟩
        have hid : i.id = invocationId := Table.get_key hget
        have hat := hn.each i (Table.get_mem hget)
        have hlast := ((hat.running a (mem_of_loadAttempt hload) (hinv.trans hid.symm)).mp hrun).2
        have hle := ((hat.numbers b.attemptNumber).mp ⟨b, hb, hbi.trans hid.symm, rfl⟩).2
        change b.attemptNumber = a.attemptNumber + 1 at hbn
        omega
  | recovered staleAfterSeconds maxAttempts now =>
    exact Or.inl (hold (commitRecovery_dispatches _ _ _ ▸ hd'))

/-- An outbox row keeps its pair and the time it is available at. -/
theorem Effect.dispatch_kept {s t : State} {c : Call} (hn : Numbered s.db) (h : Effect s c t)
    {d : InvocationDispatch} (hd : d ∈ s.db.dispatches) :
    ∃ d' ∈ t.db.dispatches, d'.invocationId = d.invocationId ∧
      d'.attemptNumber = d.attemptNumber ∧ d'.availableAt = d.availableAt := by
  obtain ⟨d', hd', hi, hnum⟩ := h.dispatch_mem hd
  refine ⟨d', hd', hi, hnum, ?_⟩
  rcases h.dispatch_origin hn hd' with ⟨e, he, hei, hen, hea⟩ | ⟨hnew, -⟩
  · have hed : e = d := Database.dispatch_eq_of_number he hd (hei.trans hi) (hen.trans hnum)
    rw [← hea, hed]
  · exact absurd hnum.symm (hnew d hd hi.symm)

/-- The columns on which an invocation was accepted. -/
structure SameTerms (i i' : Invocation) : Prop where
  id : i'.id = i.id
  version : i'.functionVersionId = i.functionVersionId
  owner : i'.ownerId = i.ownerId
  queuedAt : i'.queuedAt = i.queuedAt
  deadlineAt : i'.deadlineAt = i.deadlineAt

namespace SameTerms

theorem refl (i : Invocation) : SameTerms i i := ⟨rfl, rfl, rfl, rfl, rfl⟩

theorem trans {i j k : Invocation} (h : SameTerms i j) (h' : SameTerms j k) : SameTerms i k where
  id := h'.id.trans h.id
  version := h'.version.trans h.version
  owner := h'.owner.trans h.owner
  queuedAt := h'.queuedAt.trans h.queuedAt
  deadlineAt := h'.deadlineAt.trans h.deadlineAt

theorem lose (i loaded : Invocation) (maxAttempts : Nat) (now : Time) :
    SameTerms i (loaded.lose maxAttempts now i) := by
  obtain ⟨hv, ho, hq, hd⟩ := Invocation.lose_terms loaded maxAttempts now i
  exact ⟨Invocation.lose_id _ _ _ _, hv, ho, hq, hd⟩

/-- An update leaves a row under every id. -/
theorem modify_mem {t : Table Invocation.id Invocation.ownerKey} {id : UUID}
    {f : Invocation → Invocation} (hf : ∀ r, (f r).id = r.id ∧ (f r).ownerKey = r.ownerKey)
    {i : Invocation} (hi : i ∈ t) : ∃ i' ∈ t.modify id f hf, i'.id = i.id := by
  refine ⟨_, (Table.mem_modify hf).mpr ⟨i, hi, rfl⟩, ?_⟩
  split
  · exact (hf i).1
  · rfl

/-- An update that keeps the terms of every row keeps them of the modified one. -/
theorem modify {t : Table Invocation.id Invocation.ownerKey} {id : UUID}
    {f : Invocation → Invocation} (hf : ∀ r, (f r).id = r.id ∧ (f r).ownerKey = r.ownerKey)
    {i' : Invocation} (hi' : i' ∈ t.modify id f hf) (hsame : ∀ r, SameTerms r (f r)) :
    ∃ i ∈ t, SameTerms i i' := by
  obtain ⟨i, hi, rfl⟩ := (Table.mem_modify hf).mp hi'
  refine ⟨i, hi, ?_⟩
  split
  · exact hsame i
  · exact refl i

end SameTerms

/-- **An invocation row is old, or was created by the call.** -/
theorem Effect.invocation_origin {s t : State} {c : Call} (h : Effect s c t) {i' : Invocation}
    (hi' : i' ∈ t.db.invocations) :
    (∃ i ∈ s.db.invocations, SameTerms i i') ∨
    ∃ request version invocationId dispatchId now,
      c = .createInvocation request invocationId dispatchId now ∧
      i' = newInvocation request version invocationId now ∧
      s.db.invocations.get invocationId = none := by
  have hold : i' ∈ s.db.invocations → ∃ i ∈ s.db.invocations, SameTerms i i' :=
    fun hm => ⟨i', hm, .refl i'⟩
  cases h with
  | unrelated c db hi ha hd => exact Or.inl (hold (hi ▸ hi'))
  | created request version invocationId dispatchId now db hc =>
    obtain ⟨invocations, _, hi, -, rfl⟩ := insertInvocation_ok hc
    rcases (Table.mem_insert hi).mp hi' with hi' | rfl
    · exact Or.inl (hold hi')
    · exact Or.inr ⟨request, version, invocationId, dispatchId, now, rfl, rfl,
        Table.insert_fresh hi⟩
  | dispatched limit now outcomes => exact Or.inl (hold hi')
  | marked message messageId recovered workerId attemptId now hm =>
    rcases hr : markRunning s.db (parseInvocationTask messageId message recovered) workerId
      attemptId now with ⟨db', r⟩
    rw [hr] at hi'
    cases markRunning_cases hr with
    | missing | terminal | superseded | future | late | rejected => exact Or.inl (hold hi')
    | expired | started =>
      exact Or.inl (SameTerms.modify (by exact fun _ => ⟨rfl, rfl⟩) hi'
        fun r => ⟨rfl, rfl, rfl, rfl, rfl⟩)
  | finished invocationId attemptId attempt result policy dispatchId now ha hr =>
    rcases hm : markFinished s.db invocationId attemptId none result
      (policy.decide result attempt.attemptNumber) dispatchId now with ⟨db', r⟩
    rw [hm] at hi'
    cases markFinished_cases hm with
    | raised | rejected => exact Or.inl (hold hi')
    | retried | completed =>
      exact Or.inl (SameTerms.modify (by exact fun _ => ⟨rfl, rfl⟩) hi'
        fun r => ⟨rfl, rfl, rfl, rfl, rfl⟩)
  | recovered staleAfterSeconds maxAttempts now =>
    have hread := readRecovery_of s.db staleAfterSeconds [] now
    obtain ⟨i, hi, ⟨rfl, -⟩ | ⟨p, -, rfl, rfl⟩⟩ := hread.mem_invocations hi'
    · exact Or.inl (hold hi)
    · exact Or.inl ⟨p.2, hi, .lose _ _ _ _⟩

/-- No call removes an invocation. -/
theorem Effect.invocation_mem {s t : State} {c : Call} (h : Effect s c t) {i : Invocation}
    (hi : i ∈ s.db.invocations) : ∃ i' ∈ t.db.invocations, i'.id = i.id := by
  cases h with
  | unrelated c db hdb ha hd => exact ⟨i, hdb ▸ hi, rfl⟩
  | created request version invocationId dispatchId now db hc =>
    obtain ⟨invocations, _, hv, -, rfl⟩ := insertInvocation_ok hc
    exact ⟨i, (Table.mem_insert hv).mpr (Or.inl hi), rfl⟩
  | dispatched limit now outcomes => exact ⟨i, hi, rfl⟩
  | marked message messageId recovered workerId attemptId now hm =>
    rcases hr : markRunning s.db (parseInvocationTask messageId message recovered) workerId
      attemptId now with ⟨db', r⟩
    cases markRunning_cases hr with
    | missing | terminal | superseded | future | late | rejected => exact ⟨i, hi, rfl⟩
    | expired | started => exact SameTerms.modify_mem (by exact fun _ => ⟨rfl, rfl⟩) hi
  | finished invocationId attemptId attempt result policy dispatchId now ha hr =>
    rcases hm : markFinished s.db invocationId attemptId none result
      (policy.decide result attempt.attemptNumber) dispatchId now with ⟨db', r⟩
    cases markFinished_cases hm with
    | raised | rejected => exact ⟨i, hi, rfl⟩
    | retried | completed => exact SameTerms.modify_mem (by exact fun _ => ⟨rfl, rfl⟩) hi
  | recovered staleAfterSeconds maxAttempts now => exact commitRecovery_invocation_mem _ _ hi

/-- **No call changes what an invocation was accepted on.** -/
theorem Effect.invocation_kept {s t : State} {c : Call} (h : Effect s c t) {i : Invocation}
    (hi : i ∈ s.db.invocations) : ∃ i' ∈ t.db.invocations, SameTerms i i' := by
  obtain ⟨i', hi', hid⟩ := h.invocation_mem hi
  rcases h.invocation_origin hi' with ⟨j, hj, hsame⟩ | ⟨_, _, k, _, _, -, rfl, hnone⟩
  · have hji : j = i := Table.eq_of_key hj hi (hsame.id.symm.trans hid)
    exact ⟨i', hi', hji ▸ hsame⟩
  · exact absurd hid.symm (Table.get_eq_none.mp hnone i hi)

/-- Function and version rows are only ever added, one at a time. -/
theorem registry_step {s t : State} {c : Call} (h : step s c = some t) :
    t.db.functions = s.db.functions ∧ t.db.versions = s.db.versions ∨
    (∃ row, c = .createFunction row ∧ t.db.versions = s.db.versions) ∨
    ∃ row, c = .createFunctionVersion row ∧ s.db.versions.insert row = .ok t.db.versions := by
  cases c with
  | createFunction row =>
    cases h
    cases hi : s.db.functions.insert row <;> exact Or.inr (Or.inl ⟨row, rfl, rfl⟩)
  | createFunctionVersion row =>
    cases h
    cases hi : s.db.versions.insert row with
    | error v => exact Or.inl ⟨rfl, rfl⟩
    | ok versions => exact Or.inr (Or.inr ⟨row, rfl, hi⟩)
  | createInvocation request invocationId dispatchId now =>
    cases h
    rcases createInvocation_db s.db request invocationId dispatchId now with hu | ⟨v, db, hi, hu⟩
    · exact Or.inl ⟨by rw [hu], by rw [hu]⟩
    · obtain ⟨_, _, -, -, rfl⟩ := insertInvocation_ok hi
      exact Or.inl ⟨by rw [hu], by rw [hu]⟩
  | dispatchPending limit now outcomes =>
    cases h
    exact Or.inl ⟨rfl, rfl⟩
  | markRunning message messageId recovered workerId attemptId now =>
    simp only [step, Option.ite_none_right_eq_some] at h
    obtain ⟨-, h⟩ := h
    cases h
    rcases hr : Model.markRunning s.db (parseInvocationTask messageId message recovered) workerId
      attemptId now with ⟨db', r⟩
    cases markRunning_cases hr <;> exact Or.inl ⟨rfl, rfl⟩
  | markFinished invocationId attemptId result policy dispatchId now =>
    simp only [step] at h
    cases ha : s.db.attempts.get attemptId with
    | none => simp [ha] at h
    | some attempt =>
      simp only [ha, Option.ite_none_left_eq_some] at h
      obtain ⟨-, h⟩ := h
      cases h
      rcases hm : Model.markFinished s.db invocationId attemptId none result
        (policy.decide result attempt.attemptNumber) dispatchId now with ⟨db', r⟩
      cases markFinished_cases hm <;> exact Or.inl ⟨rfl, rfl⟩
  | recoverStaleWorkers staleAfterSeconds maxAttempts now =>
    cases h
    rw [recoverStaleWorkers_db]
    exact Or.inl ⟨commitRecovery_functions _ _ _, commitRecovery_versions _ _ _⟩
  | registerWorker workerId hostname maxConcurrency consumerName now =>
    cases h
    rcases orUnchanged_cases s.db
      (Model.registerWorker s.db workerId hostname maxConcurrency consumerName now) with hu | hu
    · exact Or.inl ⟨by rw [hu], by rw [hu]⟩
    · obtain ⟨workers, -, hw⟩ := registerWorker_ok hu
      exact Or.inl ⟨by rw [hw], by rw [hw]⟩
  | recordHeartbeat workerId activeInvocations status now =>
    cases h
    unfold Model.recordHeartbeat
    cases s.db.workers.get workerId <;> exact Or.inl ⟨rfl, rfl⟩
  | markOffline workerId now =>
    cases h
    unfold Model.markOffline Model.recordHeartbeat
    cases s.db.workers.get workerId <;> exact Or.inl ⟨rfl, rfl⟩
  | markWorkersOffline workerIds =>
    cases h
    exact Or.inl ⟨rfl, rfl⟩

theorem version_kept {s t : State} {c : Call} (h : step s c = some t) {v : FunctionVersion}
    (hv : v ∈ s.db.versions) : v ∈ t.db.versions := by
  rcases registry_step h with ⟨-, he⟩ | ⟨row, -, he⟩ | ⟨row, -, hi⟩
  · exact he ▸ hv
  · exact he ▸ hv
  · exact (Table.mem_insert hi).mpr (Or.inl hv)

/-- An invocation that a call creates is pinned to a version of a function of its owner. -/
theorem createdInvocation_pinned {s t : State} {request : CreateRequest}
    {invocationId dispatchId : UUID} {now : Time}
    (h : step s (.createInvocation request invocationId dispatchId now) = some t)
    (hnone : s.db.invocations.get invocationId = none) {i : Invocation}
    (hi : i ∈ t.db.invocations) (hid : i.id = invocationId) :
    ∃ v ∈ s.db.versions, i = newInvocation request v invocationId now ∧
      ∃ f ∈ s.db.functions, f.id = v.functionId ∧ f.ownerId = request.ownerId := by
  cases h
  rcases createInvocation_origin hi with hold | hnew
  · exact absurd hid (Table.get_eq_none.mp hnone i hold)
  · exact hnew

end Serverless.Ledger
