import Serverless.Sessions.System

/-!
# Fencing of superseded attempts

`mark_finished` compares the invocation row, read fresh, with the attempt object that
the session has held since `mark_running`. The object never shows that a recovery has
failed its row, so the call is stopped only by the invocation: it goes through as soon
as a later attempt runs. In runs where that does not happen every call that goes
through acts on the attempt that is running, and each step is a complete call of the
ledger.
-/
namespace Serverless.Sessions

open Serverless.Library Serverless.Model

/-- Recoveries read and commit in one step. -/
def CompleteCalls (_ : State) : Event → Prop
  | .readRecovery .. | .commitRecovery _ => False
  | _ => True

/-- No `mark_finished` is called while a later attempt of its invocation is running. -/
def NotSuperseded (s : State) : Event → Prop
  | .markFinished task .. => ∀ a ∈ s.held[task]?, ∀ i ∈ s.db.invocations.get a.invocationId,
      i.status = .running → i.attemptCount ≤ a.attemptNumber
  | _ => True

instance (s : State) (e : Event) : Decidable (CompleteCalls s e) :=
  match e with
  | .readRecovery .. | .commitRecovery _ => inferInstanceAs (Decidable False)
  | .call _ | .markRunning .. | .markFinished .. | .abandonTask _ | .abandonRecovery _ =>
    inferInstanceAs (Decidable True)

instance (s : State) (e : Event) : Decidable (NotSuperseded s e) :=
  match e with
  | .markFinished task .. => inferInstanceAs (Decidable (∀ a ∈ s.held[task]?,
      ∀ i ∈ s.db.invocations.get a.invocationId,
        i.status = .running → i.attemptCount ≤ a.attemptNumber))
  | .call _ | .markRunning .. | .readRecovery .. | .commitRecovery _ | .abandonTask _
  | .abandonRecovery _ => inferInstanceAs (Decidable True)

/-- Attempt rows stay, and change at most once: out of `RUNNING`. -/
def AttemptsFollow (db db' : Database) : Prop :=
  ∀ a ∈ db.attempts, ∃ a' ∈ db'.attempts, a'.id = a.id ∧ a'.invocationId = a.invocationId ∧
    a'.attemptNumber = a.attemptNumber ∧ (a' = a ∨ a.status = .running ∧ a'.status ≠ .running)

namespace AttemptsFollow

variable {db db' : Database}

theorem of_subset (h : ∀ a ∈ db.attempts, a ∈ db'.attempts) : AttemptsFollow db db' :=
  fun a ha => ⟨a, h a ha, rfl, rfl, rfl, Or.inl rfl⟩

theorem of_eq (h : db'.attempts = db.attempts) : AttemptsFollow db db' :=
  of_subset fun _ ha => h ▸ ha

theorem markRunning {task : InvocationTask} {workerId : Option UUID} {attemptId : UUID} {now : Time}
    {r : Except StartError InvocationAttempt}
    (h : markRunning db task workerId attemptId now = (db', r)) : AttemptsFollow db db' := by
  cases markRunning_cases h with
  | missing | terminal | superseded | future | late | rejected | expired => exact of_eq rfl
  | started i attempts hget hs hd hn hv =>
    exact of_subset fun a ha => (Table.mem_insert hv).mpr (Or.inl ha)

/-- Finishing the attempt of a row that is running and that the caller sees as it is. -/
theorem finishAttempt {a : InvocationAttempt} {result : RuntimeExecutionResult} (now : Time)
    (ha : a ∈ db.attempts) (hrun : a.status = .running) (hr : result.status ≠ .running) :
    AttemptsFollow db (db.finishAttempt a result now) := by
  intro b hb
  by_cases he : b.id = a.id
  · obtain rfl : b = a := Table.eq_of_key hb ha he
    refine ⟨b.finish result now b, ?_, rfl, rfl, rfl, Or.inr ⟨hrun, ?_⟩⟩
    · exact Table.mem_modify_self (by exact fun _ => ⟨rfl, rfl⟩) (Table.get_of_mem hb)
    · simpa [InvocationAttempt.finish] using hr
  · exact ⟨b, Table.mem_modify_of_ne (by exact fun _ => ⟨rfl, rfl⟩) hb he, rfl, rfl, rfl, Or.inl rfl⟩

theorem markFinished {invocationId attemptId : UUID} {result : RuntimeExecutionResult}
    {decision : RetryDecision} {dispatchId : UUID} {now : Time}
    {r : Except CompleteError InvocationAttempt} (hr : result.status ≠ .running)
    (h : markFinished db invocationId attemptId none result decision dispatchId now = (db', r)) :
    AttemptsFollow db db' := by
  cases markFinished_cases h with
  | raised | rejected => exact of_eq rfl
  | retried i a dispatches hget ha hinv hi hrun =>
    exact finishAttempt now (mem_of_loadAttempt ha) hrun hr
  | completed i a status hget ha hinv hi hrun =>
    exact finishAttempt now (mem_of_loadAttempt ha) hrun hr

theorem recovered {staleAfterSeconds : Nat} {locked : List UUID} {r : RecoveryRead}
    (h : ReadOf db staleAfterSeconds locked r) (maxAttempts : Nat) :
    AttemptsFollow db (commitRecovery db r maxAttempts) := by
  intro a ha
  obtain ⟨a', ha', hid, hinv, hn⟩ := commitRecovery_attempt_mem r maxAttempts ha
  refine ⟨a', ha', hid, hinv, hn, ?_⟩
  obtain ⟨b, hb, rfl | ⟨p, hp, rfl, rfl⟩⟩ := h.mem_attempts ha'
  · exact Or.inl (Table.eq_of_key hb ha hid)
  · obtain rfl : p.1 = a := Table.eq_of_key hb ha hid
    have hrun := (h.attempt p hp).2.1
    refine Or.inr ⟨hrun, ?_⟩
    rw [InvocationAttempt.lose_status hrun]
    decide

theorem of_call {s t : Ledger.State} {c : Ledger.Call} (h : Ledger.step s c = some t) :
    AttemptsFollow s.db t.db := by
  cases Ledger.step_effect h with
  | unrelated _ db hi ha => exact of_eq ha
  | created request version invocationId dispatchId now db hc =>
    obtain ⟨_, _, -, -, rfl⟩ := insertInvocation_ok hc
    exact of_eq rfl
  | dispatched => exact of_eq rfl
  | marked => exact markRunning rfl
  | finished invocationId attemptId attempt result policy dispatchId now ha hr =>
    exact markFinished hr rfl
  | recovered staleAfterSeconds maxAttempts now => exact recovered (readRecovery_of _ _ _ _) _

end AttemptsFollow

/-- No result is stored: the count may move on, and otherwise the result columns stay. -/
structure Quiet (db db' : Database) : Prop where
  kept : ∀ i ∈ db.invocations, ∃ i' ∈ db'.invocations, i'.id = i.id ∧
    i.attemptCount ≤ i'.attemptCount ∧ (i'.attemptCount = i.attemptCount →
      i'.resultInline = i.resultInline ∧ i'.resultRef = i.resultRef)
  succeeded : ∀ i' ∈ db'.invocations, i'.status = .succeeded → i' ∈ db.invocations

namespace Quiet

variable {db db' : Database}

theorem of_eq (h : db'.invocations = db.invocations) : Quiet db db' :=
  ⟨fun i hi => ⟨i, h ▸ hi, rfl, Nat.le_refl _, fun _ => ⟨rfl, rfl⟩⟩, fun _ hi _ => h ▸ hi⟩

theorem modify {id : UUID} {f : Invocation → Invocation} {i : Invocation}
    (hf : ∀ r, (f r).id = r.id ∧ (f r).ownerKey = r.ownerKey)
    (hget : db.invocations.get id = some i) (hs : (f i).status ≠ .succeeded)
    (hc : i.attemptCount < (f i).attemptCount ∨ (f i).attemptCount = i.attemptCount ∧
      (f i).resultInline = i.resultInline ∧ (f i).resultRef = i.resultRef)
    (hdb : db'.invocations = db.invocations.modify id f hf) : Quiet db db' := by
  refine ⟨fun j hj => ?_, fun j hj hjs => ?_⟩
  · rw [hdb]
    by_cases he : j.id = id
    · obtain rfl : j = i := Table.eq_of_key hj (Table.get_mem hget)
        (he.trans (Table.get_key hget).symm)
      refine ⟨f j, Table.mem_modify_self hf hget, (hf j).1, by omega, fun heq => ?_⟩
      rcases hc with hlt | ⟨-, hres⟩
      · omega
      · exact hres
    · exact ⟨j, Table.mem_modify_of_ne hf hj he, rfl, Nat.le_refl _, fun _ => ⟨rfl, rfl⟩⟩
  · rw [hdb] at hj
    rcases Table.mem_modify_cases hf hget hj with rfl | ⟨hj, -⟩
    · exact absurd hjs hs
    · exact hj

theorem markRunning {task : InvocationTask} {workerId : Option UUID} {attemptId : UUID} {now : Time}
    {r : Except StartError InvocationAttempt}
    (h : markRunning db task workerId attemptId now = (db', r)) : Quiet db db' := by
  cases markRunning_cases h with
  | missing | terminal | superseded | future | late | rejected => exact of_eq rfl
  | expired i hget =>
    exact modify (f := (·.expire now)) (fun _ => ⟨rfl, rfl⟩) hget (by simp [Invocation.expire])
      (Or.inr ⟨rfl, rfl, rfl⟩) rfl
  | started i attempts hget =>
    refine modify (f := (·.start (i.attemptCount + 1) now)) (fun _ => ⟨rfl, rfl⟩) hget
      (by simp [Invocation.start]) (Or.inl ?_) rfl
    simp only [Invocation.start]
    omega

theorem recovered {staleAfterSeconds : Nat} {locked : List UUID} {r : RecoveryRead}
    (h : ReadOf db staleAfterSeconds locked r) (maxAttempts : Nat) :
    Quiet db (commitRecovery db r maxAttempts) := by
  refine ⟨fun i hi => ?_, fun i' hi' hs => ?_⟩
  · obtain ⟨i', hi', hid⟩ := commitRecovery_invocation_mem r maxAttempts hi
    refine ⟨i', hi', hid, ?_⟩
    obtain ⟨j, hj, rfl | ⟨p, -, -, rfl⟩⟩ := h.mem_invocations hi'
    · obtain rfl : i' = i := Table.eq_of_key hj hi hid
      exact ⟨Nat.le_refl _, fun _ => ⟨rfl, rfl⟩⟩
    · obtain rfl : j = i := Table.eq_of_key hj hi
        ((Invocation.lose_id _ _ _ _).symm.trans hid)
      exact ⟨(Invocation.lose_attemptCount _ _ _ _).ge, fun _ => Invocation.lose_result _ _ _ _⟩
  · obtain ⟨j, hj, rfl | ⟨p, hp, rfl, rfl⟩⟩ := h.mem_invocations hi'
    · exact hj
    · rw [Invocation.lose_status (h.invocation p hp).2.2] at hs
      split at hs <;> cases hs

/-- Complete calls other than those of a task's session. -/
theorem of_call {s : State} {c : Ledger.Call} {l : Ledger.State} (hc : callable s c = true)
    (h : Ledger.step s.ledger c = some l) : Quiet s.db l.db := by
  cases Ledger.step_effect h with
  | unrelated _ db hi => exact of_eq hi
  | created request version invocationId dispatchId now db hv =>
    obtain ⟨_, _, hi, -, rfl⟩ := insertInvocation_ok hv
    refine ⟨fun i him => ⟨i, (Table.mem_insert hi).mpr (Or.inl him), rfl, Nat.le_refl _,
      fun _ => ⟨rfl, rfl⟩⟩, fun i' hi' hs => ?_⟩
    rcases (Table.mem_insert hi).mp hi' with hi' | rfl
    · exact hi'
    · cases hs
  | dispatched => exact of_eq rfl
  | marked | finished => cases hc
  | recovered staleAfterSeconds maxAttempts now => exact recovered (readRecovery_of _ _ _ _) _

end Quiet

/-- The committed row of an attempt object or of a finished call. -/
def State.RowOf (s : State) (a row : InvocationAttempt) : Prop :=
  s.db.attempts.get a.id = some row ∧ row.invocationId = a.invocationId ∧
    row.attemptNumber = a.attemptNumber

/-- What holds in runs without superseded calls. `stored` and `succeeded` say whose result
an invocation carries. -/
structure Inv (s : State) : Prop where
  ledger : Reachable Ledger.step Ledger.init s.ledger
  held : ∀ a ∈ s.held, a.status = .running ∧
    ∃ row, s.RowOf a row ∧ (row = a ∨ row.status ≠ .running)
  finished : ∀ f ∈ s.finished, ∃ row, s.RowOf f.attempt row ∧ row.status ≠ .running
  stored : ∀ f ∈ s.finished, ∃ i, s.db.invocations.get f.attempt.invocationId = some i ∧
    f.attempt.attemptNumber ≤ i.attemptCount ∧ (f.attempt.attemptNumber = i.attemptCount →
      i.resultInline = f.result.resultInline ∧ i.resultRef = f.result.resultRef)
  succeeded : ∀ i ∈ s.db.invocations, i.status = .succeeded → ∃ f ∈ s.finished,
    f.attempt.invocationId = i.id ∧ f.attempt.attemptNumber = i.attemptCount ∧
      f.result.status = .succeeded

theorem State.RowOf.follow {s t : State} {a row : InvocationAttempt} (h : s.RowOf a row)
    (hf : AttemptsFollow s.db t.db) :
    ∃ row', t.RowOf a row' ∧ (row' = row ∨ row'.status ≠ .running) := by
  obtain ⟨hget, hinv, hn⟩ := h
  obtain ⟨row', hrow', hid, hinv', hn', hc⟩ := hf row (Table.get_mem hget)
  have hkey : row'.id = a.id := hid.trans (Table.get_key hget)
  exact ⟨row', ⟨hkey ▸ Table.get_of_mem hrow', hinv'.trans hinv, hn'.trans hn⟩,
    hc.imp_right (·.2)⟩

namespace Inv

variable {s t : State}

theorem held_follow (h : Inv s) (hf : AttemptsFollow s.db t.db) {a : InvocationAttempt}
    (ha : a ∈ s.held) : a.status = .running ∧
      ∃ row, t.RowOf a row ∧ (row = a ∨ row.status ≠ .running) := by
  obtain ⟨hrun, row, hrow, hc⟩ := h.held a ha
  obtain ⟨row', hrow', hc'⟩ := hrow.follow hf
  refine ⟨hrun, row', hrow', ?_⟩
  rcases hc' with rfl | hne
  · exact hc
  · exact Or.inr hne

theorem finished_follow (h : Inv s) (hf : AttemptsFollow s.db t.db) {f : Finish}
    (hm : f ∈ s.finished) : ∃ row, t.RowOf f.attempt row ∧ row.status ≠ .running := by
  obtain ⟨row, hrow, hne⟩ := h.finished f hm
  obtain ⟨row', hrow', hc⟩ := hrow.follow hf
  refine ⟨row', hrow', ?_⟩
  rcases hc with rfl | hne'
  · exact hne
  · exact hne'

/-- A step that stores no result, takes no call out of the history and adds no attempt
object. -/
theorem quiet (h : Inv s) (hl : Reachable Ledger.step Ledger.init t.ledger)
    (ha : AttemptsFollow s.db t.db) (hq : Quiet s.db t.db)
    (hh : ∀ a ∈ t.held, a ∈ s.held ∨ a.status = .running ∧ t.RowOf a a)
    (hf : t.finished = s.finished) : Inv t := by
  refine ⟨hl, fun a hat => ?_, fun f hft => ?_, fun f hft => ?_, fun i hi hs => ?_⟩
  · rcases hh a hat with hmem | ⟨hrun, hrow⟩
    · exact h.held_follow ha hmem
    · exact ⟨hrun, a, hrow, Or.inl rfl⟩
  · exact h.finished_follow ha (hf ▸ hft)
  · rw [hf] at hft
    obtain ⟨i, hget, hle, hres⟩ := h.stored f hft
    obtain ⟨i', hi', hid, hle', hkeep⟩ := hq.kept i (Table.get_mem hget)
    have hkey : i'.id = f.attempt.invocationId := hid.trans (Table.get_key hget)
    refine ⟨i', hkey ▸ Table.get_of_mem hi', hle.trans hle', fun heq => ?_⟩
    -- the count did not move, so neither did the result
    have hcount : i'.attemptCount = i.attemptCount := by omega
    obtain ⟨hin, href⟩ := hkeep hcount
    rw [hin, href]
    exact hres (by omega)
  · rw [hf]
    exact h.succeeded i (hq.succeeded i hi hs) hs

/-- A `mark_finished` that goes through without being superseded: the committed row is
the object, it is running, and it is the latest attempt. -/
theorem acts_on_latest (h : Inv s) {a : InvocationAttempt} (ha : a ∈ s.held)
    (hn : ∀ i ∈ s.db.invocations.get a.invocationId, i.status = .running →
      i.attemptCount ≤ a.attemptNumber)
    {result : RuntimeExecutionResult} {policy : RetryPolicy} {dispatchId : UUID} {now : Time}
    {db : Database} {row : InvocationAttempt}
    (hf : s.finish a result policy dispatchId now = (db, .ok row)) :
    s.db.attempts.get a.id = some a ∧ ∃ i, s.db.invocations.get a.invocationId = some i ∧
      i.status = .running ∧ a.attemptNumber = i.attemptCount := by
  obtain ⟨harun, committed, ⟨hget, hinv, hnum⟩, hc⟩ := h.held a ha
  obtain ⟨i, hi, hirun⟩ : ∃ i, s.db.invocations.get a.invocationId = some i ∧
      i.status = .running := by
    cases markFinished_cases hf with
    | retried i _ _ hi _ _ hirun => exact ⟨i, hi, hirun⟩
    | completed i _ _ hi _ _ hirun => exact ⟨i, hi, hirun⟩
  have hat := (Ledger.inv_reachable h.ledger).numbered.each i (Table.get_mem hi)
  have hown : committed.invocationId = i.id := hinv.trans (Table.get_key hi).symm
  have hle := ((hat.numbers committed.attemptNumber).mp
    ⟨committed, Table.get_mem hget, hown, rfl⟩).2
  have hge := hn i hi hirun
  have hlatest : committed.attemptNumber = i.attemptCount := by omega
  have hrun : committed.status = .running :=
    (hat.running committed (Table.get_mem hget) hown).mpr ⟨hirun, hlatest⟩
  obtain rfl : committed = a := hc.resolve_right (not_not_intro hrun)
  exact ⟨hget, i, hi, hirun, hlatest⟩

end Inv

/-- With the committed row in hand the call does what a call with a fresh session does. -/
theorem finish_eq_fresh {s : State} {a : InvocationAttempt}
    (hget : s.db.attempts.get a.id = some a) (result : RuntimeExecutionResult)
    (policy : RetryPolicy) (dispatchId : UUID) (now : Time) :
    s.finish a result policy dispatchId now =
      markFinished s.db a.invocationId a.id none result (policy.decide result a.attemptNumber)
        dispatchId now := by
  have hload : loadAttempt s.db a.id (some a) = loadAttempt s.db a.id none := by
    simp [loadAttempt, hget]
  simp only [State.finish, markFinished, hload]

/-- **A step without superseded calls is a complete call of the ledger, or none.** -/
theorem ledger_step {s t : State} {e : Event} (h : Inv s) (hc : CompleteCalls s e)
    (hn : NotSuperseded s e) (hs : step s e = some t) :
    t.ledger = s.ledger ∨ ∃ c, Ledger.step s.ledger c = some t.ledger := by
  cases step_effect hs with
  | called c l _ hl => exact Or.inr ⟨c, hl⟩
  | started message messageId recovered workerId attemptId now db attempt hm hr =>
    refine Or.inr ⟨.markRunning message messageId recovered workerId attemptId now, ?_⟩
    simp only [State.db] at hr
    simp only [Ledger.step, if_pos hm, hr]
    rfl
  | notStarted message messageId recovered workerId attemptId now db error hm hr =>
    refine Or.inr ⟨.markRunning message messageId recovered workerId attemptId now, ?_⟩
    simp only [State.db] at hr
    simp only [Ledger.step, if_pos hm, hr]
    rfl
  | finished task a result policy dispatchId now db row ha hr hf =>
    obtain ⟨hget, -⟩ := h.acts_on_latest (List.mem_of_getElem? ha) (hn a ha) hf
    refine Or.inr ⟨.markFinished a.invocationId a.id result policy dispatchId now, ?_⟩
    rw [finish_eq_fresh hget] at hf
    simp only [State.db] at hget hf
    simp only [Ledger.step, hget, if_neg hr, hf]
    rfl
  | notFinished | read | abandoned => exact Or.inl rfl
  | recovered => exact absurd hc id

/-- What a `mark_finished` that goes through leaves in the two rows. -/
theorem finish_ok {db db' : Database} {a row : InvocationAttempt} {i : Invocation}
    {result : RuntimeExecutionResult} {decision : RetryDecision} {dispatchId : UUID} {now : Time}
    (hget : db.attempts.get a.id = some a) (hi : db.invocations.get a.invocationId = some i)
    (h : markFinished db a.invocationId a.id none result decision dispatchId now = (db', .ok row)) :
    db'.attempts.get a.id = some (a.finish result now a) ∧
    (∃ i', db'.invocations.get a.invocationId = some i' ∧ i'.attemptCount = i.attemptCount ∧
      i'.resultInline = result.resultInline ∧ i'.resultRef = result.resultRef ∧
      (i'.status = .succeeded → result.status = .succeeded)) ∧
    ∀ k, k ≠ a.invocationId → db'.invocations.get k = db.invocations.get k := by
  have hload : loadAttempt db a.id none = some a := by simp [loadAttempt, hget]
  cases markFinished_cases h with
  | retried j b dispatches hj hb =>
    obtain rfl : a = b := Option.some.inj (hload.symm.trans hb)
    refine ⟨?_, ⟨i.retry result, ?_, rfl, rfl, rfl, ?_⟩, fun k hk => ?_⟩
    · simp [Database.finishAttempt, Database.retryInvocation, Table.get_modify, hget]
    · simp [Database.finishAttempt, Database.retryInvocation, Table.get_modify, hi]
    · simp [Invocation.retry]
    · simp [Database.finishAttempt, Database.retryInvocation, Table.get_modify, hk]
  | completed j b status hj hb _ _ _ _ hs =>
    obtain rfl : a = b := Option.some.inj (hload.symm.trans hb)
    refine ⟨?_, ⟨i.complete status result now, ?_, rfl, rfl, rfl, ?_⟩, fun k hk => ?_⟩
    · simp [Database.finishAttempt, Database.completeInvocation, Table.get_modify, hget]
    · simp [Database.finishAttempt, Database.completeInvocation, Table.get_modify, hi]
    · intro hst
      change status = .succeeded at hst
      subst hst
      cases hr : result.status <;> simp [attemptToInvocationStatus, hr] at hs
      rfl
    · simp [Database.finishAttempt, Database.completeInvocation, Table.get_modify, hk]

namespace Inv

variable {s t : State}

theorem finish (h : Inv s) {task : Nat} {a row : InvocationAttempt}
    {result : RuntimeExecutionResult} {policy : RetryPolicy} {dispatchId : UUID} {now : Time}
    {db : Database} (ha : s.held[task]? = some a) (hr : result.status ≠ .running)
    (hn : ∀ i ∈ s.db.invocations.get a.invocationId, i.status = .running →
      i.attemptCount ≤ a.attemptNumber)
    (hf : s.finish a result policy dispatchId now = (db, .ok row))
    (hl : Reachable Ledger.step Ledger.init { s.ledger with db := db }) :
    Inv { s.withDb db with
      held := s.held.eraseIdx task
      finished := s.finished ++ [⟨a, result⟩] } := by
  obtain ⟨hget, i, hi, hirun, hlatest⟩ := h.acts_on_latest (List.mem_of_getElem? ha) hn hf
  rw [finish_eq_fresh hget] at hf
  have hfollow : AttemptsFollow s.db db := .markFinished hr hf
  obtain ⟨hrow, ⟨i', hi', hcount, hin, href, hsucc⟩, hother⟩ := finish_ok hget hi hf
  refine ⟨hl, fun b hb => ?_, fun f hft => ?_, fun f hft => ?_, fun j hj hjs => ?_⟩
  · exact h.held_follow (t := s.withDb db) hfollow (List.eraseIdx_subset hb)
  · rcases List.mem_append.mp hft with hft | hft
    · exact h.finished_follow (t := s.withDb db) hfollow hft
    · rw [List.mem_singleton.mp hft]
      refine ⟨_, ⟨hrow, rfl, rfl⟩, ?_⟩
      simpa [InvocationAttempt.finish] using hr
  · rcases List.mem_append.mp hft with hft | hft
    · obtain ⟨j, hj, hle, hres⟩ := h.stored f hft
      by_cases hk : f.attempt.invocationId = a.invocationId
      · rw [hk, hi] at hj
        cases hj
        refine ⟨i', hk ▸ hi', hcount ▸ hle, fun heq => ?_⟩
        -- a logged call for the latest attempt would have ended its row
        obtain ⟨row', ⟨hrow', hinv', hn'⟩, hne⟩ := h.finished f hft
        have hsame : row' = a := Database.attempt_eq_of_number (Table.get_mem hrow')
          (Table.get_mem hget) (hinv'.trans hk) (by omega)
        exact absurd (h.held a (List.mem_of_getElem? ha)).1 (hsame ▸ hne)
      · exact ⟨j, (hother _ hk).trans hj, hle, hres⟩
    · rw [List.mem_singleton.mp hft]
      exact ⟨i', hi', by rw [hcount, hlatest], fun _ => ⟨hin, href⟩⟩
  · by_cases hk : j.id = a.invocationId
    · have hji : j = i' := Option.some.inj ((Table.get_of_mem hj).symm.trans (hk ▸ hi'))
      refine ⟨⟨a, result⟩, List.mem_append_right _ (List.mem_singleton_self _), hk.symm, ?_,
        hsucc (hji ▸ hjs)⟩
      rw [hji, hcount, hlatest]
    · have hold : j ∈ s.db.invocations :=
        Table.get_mem ((hother _ hk).symm.trans (Table.get_of_mem hj))
      obtain ⟨f, hf', hp⟩ := h.succeeded j hold hjs
      exact ⟨f, List.mem_append_left _ hf', hp⟩

theorem step {e : Event} (h : Inv s) (hc : CompleteCalls s e) (hn : NotSuperseded s e)
    (hs : Sessions.step s e = some t) : Inv t := by
  have hl : Reachable Ledger.step Ledger.init t.ledger := by
    rcases ledger_step h hc hn hs with he | ⟨c, hstep⟩
    · exact he ▸ h.ledger
    · exact h.ledger.next hstep
  cases step_effect hs with
  | called c l hcall hlstep =>
    exact h.quiet hl (AttemptsFollow.of_call hlstep) (Quiet.of_call hcall hlstep)
      (fun a ha => Or.inl ha) rfl
  | started message messageId recovered workerId attemptId now db attempt hm hr =>
    refine h.quiet hl (.markRunning hr) (.markRunning hr) (fun a ha => ?_) rfl
    rcases List.mem_append.mp ha with ha | ha
    · exact Or.inl ha
    · rw [List.mem_singleton.mp ha]
      cases markRunning_cases hr with
      | started i attempts hget hs hd hn hv =>
        exact Or.inr ⟨rfl, Table.get_of_mem ((Table.mem_insert hv).mpr (Or.inr rfl)), rfl, rfl⟩
  | notStarted message messageId recovered workerId attemptId now db error hm hr =>
    exact h.quiet hl (.markRunning hr) (.markRunning hr) (fun a ha => Or.inl ha) rfl
  | finished task a result policy dispatchId now db row ha hr hf =>
    exact h.finish ha hr (hn a ha) hf hl
  | notFinished =>
    exact h.quiet hl (AttemptsFollow.of_eq rfl) (Quiet.of_eq rfl)
      (fun a ha => Or.inl (List.eraseIdx_subset ha)) rfl
  | read => exact absurd hc id
  | recovered => exact absurd hc id
  | abandoned _ held recoveries hh =>
    exact h.quiet hl (AttemptsFollow.of_eq rfl) (Quiet.of_eq rfl) (fun a ha => Or.inl (hh ha)) rfl

end Inv

/-- The runs of complete calls in which no superseded call is made. -/
def Fenced (s : State) (e : Event) : Prop := CompleteCalls s e ∧ NotSuperseded s e

instance (s : State) (e : Event) : Decidable (Fenced s e) :=
  inferInstanceAs (Decidable (CompleteCalls s e ∧ NotSuperseded s e))

theorem inv_reachable {s : State} (h : ReachableBy step Fenced init s) : Inv s := by
  refine h.invariant (fun s hs => ?_) fun _ hi hok hs => hi.step hok.1 hok.2 hs
  obtain ⟨ledger, held, recoveries, finished⟩ := s
  obtain ⟨hl, rfl, rfl, rfl⟩ := hs
  refine ⟨.start hl, by simp, by simp, by simp, fun i hi => ?_⟩
  obtain ⟨functions, versions, rfl⟩ := hl
  exact absurd hi (Table.not_mem_empty i)

/-- The call acts on the latest attempt of its invocation, and that attempt is running. -/
def ActsOnLatest (db : Database) (a : InvocationAttempt) : Prop :=
  ∃ row i, db.attempts.get a.id = some row ∧ row.status = .running ∧
    db.invocations.get a.invocationId = some i ∧ row.attemptNumber = i.attemptCount

/-- Every `mark_finished` that is allowed and does not raise acts on the latest attempt. -/
def LatestOnly (ok : State → Event → Prop) (s : State) : Prop :=
  ∀ task a result policy dispatchId now db row, s.held[task]? = some a →
    ok s (.markFinished task result policy dispatchId now) → result.status ≠ .running →
    s.finish a result policy dispatchId now = (db, .ok row) → ActsOnLatest s.db a

/-- The row of a finished attempt is never written again. -/
def FinishedKept (ok : State → Event → Prop) (s : State) : Prop :=
  ∀ t, Steps step ok s t → ∀ a ∈ s.db.attempts, a.status ≠ .running → a ∈ t.db.attempts

/-- An invocation whose latest attempt was finished by `mark_finished` carries its result, and
an invocation has succeeded only through its latest attempt. -/
def LatestResult (s : State) : Prop :=
  ∀ i ∈ s.db.invocations,
    (∀ f ∈ s.finished, f.attempt.invocationId = i.id → f.attempt.attemptNumber ≤ i.attemptCount ∧
      (f.attempt.attemptNumber = i.attemptCount →
        i.resultInline = f.result.resultInline ∧ i.resultRef = f.result.resultRef)) ∧
    (i.status = .succeeded → ∃ f ∈ s.finished, f.attempt.invocationId = i.id ∧
      f.attempt.attemptNumber = i.attemptCount ∧ f.result.status = .succeeded)

theorem finishedKept_of_fenced {s : State} (h : ReachableBy step Fenced init s) :
    FinishedKept Fenced s := by
  intro t hrun
  -- attempt rows follow along the run, so a finished one is carried over unchanged
  refine Steps.relation (R := fun (s t : State) => ∀ a ∈ s.db.attempts, a.status ≠ .running →
    a ∈ t.db.attempts) (fun _ _ ha _ => ha) (fun h₁ h₂ a ha hne => h₂ a (h₁ a ha hne) hne) ?_ h hrun
  intro s e t hr hok hs a ha hne
  have hi := inv_reachable hr
  have hfollow : AttemptsFollow s.db t.db := by
    rcases ledger_step hi hok.1 hok.2 hs with he | ⟨c, hc⟩
    · exact AttemptsFollow.of_eq (by rw [State.db, he, State.db])
    · exact AttemptsFollow.of_call hc
  obtain ⟨a', ha', -, -, -, rfl | ⟨hrun, -⟩⟩ := hfollow a ha
  · exact ha'
  · exact absurd hrun hne

/-- **Attempts that have not been superseded are fenced off from those that have.** -/
theorem superseded_fenced {s : State} (h : ReachableBy step Fenced init s) :
    LatestOnly Fenced s ∧ FinishedKept Fenced s ∧ LatestResult s := by
  have hi := inv_reachable h
  refine ⟨fun task a result policy dispatchId now db row ha hok hr hf => ?_,
    finishedKept_of_fenced h, fun i him => ⟨fun f hf hfi => ?_, hi.succeeded i him⟩⟩
  · obtain ⟨hget, i, hig, -, hn⟩ := hi.acts_on_latest (List.mem_of_getElem? ha) (hok.2 a ha) hf
    exact ⟨a, i, hget, (hi.held a (List.mem_of_getElem? ha)).1, hig, hn⟩
  · obtain ⟨j, hj, hp⟩ := hi.stored f hf
    rw [hfi, Table.get_of_mem him] at hj
    cases hj
    exact hp

/-- The report of the late worker: it succeeded. -/
def report (s : State) (a : InvocationAttempt) : Database × Except CompleteError InvocationAttempt :=
  s.finish a (.succeeded (.str "done")) { maxAttempts := 3, jitter := id } 11 (seconds 22)

/-- Whether the report of the first attempt object in use goes through. -/
def accepted (s : State) : Bool := (s.held[0]?).any fun a => (report s a).2.toBool

theorem exists_of_accepted {s : State} (h : accepted s = true) :
    ∃ a db row, s.held[0]? = some a ∧ report s a = (db, .ok row) := by
  simp only [accepted, Option.any_eq_true] at h
  obtain ⟨a, ha, hok⟩ := h
  rcases hr : report s a with ⟨db, error | row⟩
  · simp [hr, Except.toBool] at hok
  · exact ⟨a, db, row, ha, hr⟩

/-- Without a recovery the report of the late worker acts on the latest attempt. -/
theorem superseded_fenced_lateWorker : ∃ s, ReachableBy step Fenced init s ∧
    ∃ a db row, s.held[0]? = some a ∧ report s a = (db, .ok row) ∧ ActsOnLatest s.db a := by
  obtain ⟨s, hs, hp⟩ := reachableBy_of_replayWhere step lateWorker
    (fun s => accepted s && decide (Fenced s (.markFinished 0 (.succeeded (.str "done"))
      { maxAttempts := 3, jitter := id } 11 (seconds 22))))
    (fun s e (hc : decide (Fenced s e) = true) => of_decide_eq_true hc) init_start (by decide)
  simp only [Bool.and_eq_true, decide_eq_true_eq] at hp
  obtain ⟨a, db, row, ha, hr⟩ := exists_of_accepted hp.1
  exact ⟨s, hs, a, db, row, ha, hr,
    (superseded_fenced hs).1 0 a _ _ _ _ db row ha hp.2 (by simp [RuntimeExecutionResult.succeeded]) hr⟩

/-- The late worker is recovered from, and the second attempt runs elsewhere. -/
def supersededRun : List Event :=
  lateWorker ++ [.call (.recoverStaleWorkers 15 3 (seconds 20)),
    .markRunning ⟨3, 2, 7, 1, 0, seconds 30⟩ 1 true (some 9) 10 (seconds 21)]

/-- The report of the late worker is accepted although its attempt was failed by the recovery
and the second attempt is running. -/
theorem not_superseded_fenced :
    ¬ ∀ s, ReachableBy step CompleteCalls init s → LatestOnly CompleteCalls s := by
  intro hall
  obtain ⟨s, hs, hp⟩ := reachableBy_of_replayWhere step supersededRun
    (fun s => accepted s && (s.held[0]?).all fun a =>
      (s.db.attempts.get a.id).all fun row => row.status = .failed)
    (fun s e (hc : decide (CompleteCalls s e) = true) => of_decide_eq_true hc)
    init_start (by decide)
  simp only [Bool.and_eq_true] at hp
  obtain ⟨a, db, row, ha, hr⟩ := exists_of_accepted hp.1
  obtain ⟨committed, i, hget, hrun, -⟩ := hall s hs 0 a _ _ _ _ db row ha trivial
    (by simp [RuntimeExecutionResult.succeeded]) hr
  have hfailed := hp.2
  simp [ha, hget, hrun] at hfailed

end Serverless.Sessions
