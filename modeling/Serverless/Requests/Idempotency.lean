import Serverless.Requests.System

/-!
# Idempotent creation

The history `commits` accounts for the invocation table and for the outbox rows
numbered 1 row by row, and every call is at a stage its own commit explains. The
unique index then leaves one invocation for each owner and key, and every call with
that pair that returns has found it.
-/
namespace Serverless.Requests

open Serverless.Library Serverless.Model

/-- The key and index columns of the outbox rows numbered 1. -/
def firstDispatches (db : Database) : List (UUID × Option (UUID × Nat)) :=
  db.dispatches.index.filter fun x => x.2.map (·.2) = some 1

/-- Attempt numbers start at 1, and outbox rows belong to invocations. -/
structure Sound (db : Database) : Prop where
  positive : ∀ x ∈ db.attempts.index, ∀ p, x.2 = some p → 1 ≤ p.2
  owned : ∀ x ∈ db.dispatches.index, ∀ p, x.2 = some p → p.1 ∈ db.invocations.index.map Prod.fst

/-- What the rest of the platform leaves alone. -/
structure Untouched (db db' : Database) : Prop where
  invocations : db'.invocations.index = db.invocations.index
  first : firstDispatches db' = firstDispatches db
  sound : Sound db'

namespace Untouched

variable {db db' : Database}

theorem of_index (hp : Sound db) (hi : db'.invocations.index = db.invocations.index)
    (ha : db'.attempts.index = db.attempts.index)
    (hd : db'.dispatches.index = db.dispatches.index) : Untouched db db' where
  invocations := hi
  first := by rw [firstDispatches, firstDispatches, hd]
  sound := ⟨by rw [ha]; exact hp.positive, by rw [hd, hi]; exact hp.owned⟩

theorem markRunning (hp : Sound db) {task : InvocationTask} {workerId : Option UUID}
    {attemptId : UUID} {now : Time} {r : Except StartError InvocationAttempt}
    (h : markRunning db task workerId attemptId now = (db', r)) : Untouched db db' := by
  cases markRunning_cases h with
  | missing | terminal | superseded | future | late | rejected => exact .of_index hp rfl rfl rfl
  | expired =>
    exact .of_index hp (by simp [Database.expireInvocation]) rfl rfl
  | started i attempts hget hs hd hn hv =>
    refine ⟨by simp, rfl, fun x hx p hxp => ?_, by simpa using hp.owned⟩
    rw [Table.index_insert hv] at hx
    rcases List.mem_append.mp hx with hx | hx
    · exact hp.positive x hx p hxp
    · rw [List.mem_singleton.mp hx] at hxp
      cases hxp
      exact Nat.le_add_left 1 _

theorem markFinished (hp : Sound db) {invocationId attemptId : UUID}
    {result : RuntimeExecutionResult} {decision : RetryDecision} {dispatchId : UUID} {now : Time}
    {r : Except CompleteError InvocationAttempt}
    (h : markFinished db invocationId attemptId none result decision dispatchId now = (db', r)) :
    Untouched db db' := by
  cases markFinished_cases h with
  | raised | rejected => exact .of_index hp rfl rfl rfl
  | retried i a dispatches hget hload hinv hi ha hr hv =>
    have hids : (db.retryInvocation invocationId result).invocations.index =
        db.invocations.index := by simp [Database.retryInvocation]
    refine ⟨hids, ?_, ?_, fun x hx p hxp => ?_⟩
    · -- the new row is numbered one above its attempt, so it is not numbered 1
      have ha : a ∈ db.attempts := mem_of_loadAttempt hload
      have hpos : 1 ≤ a.attemptNumber := hp.positive _ (Table.mem_index.mpr ⟨a, ha, rfl⟩) _ rfl
      rw [firstDispatches, Table.index_insert hv, List.filter_append]
      have hne : a.attemptNumber ≠ 0 := by omega
      simp [firstDispatches, retryDispatch, InvocationDispatch.invocationNumber, hne]
    · simpa [Database.retryInvocation, Database.finishAttempt] using hp.positive
    · show p.1 ∈ (db.retryInvocation invocationId result).invocations.index.map Prod.fst
      rw [hids]
      rw [Table.index_insert hv] at hx
      rcases List.mem_append.mp hx with hx | hx
      · exact hp.owned x hx p hxp
      · rw [List.mem_singleton.mp hx] at hxp
        cases hxp
        have hid : i.id = invocationId := Table.get_key hget
        exact List.mem_map.mpr ⟨(i.id, i.ownerKey),
          Table.mem_index.mpr ⟨i, Table.get_mem hget, rfl⟩, hid⟩
  | completed i a status hget hload hinv hi ha hr hs =>
    exact .of_index hp (by simp [Database.completeInvocation, Database.finishAttempt])
      (by simp [Database.completeInvocation, Database.finishAttempt]) rfl

theorem of_step {s t : Ledger.State} {c : Ledger.Call} (hp : Sound s.db)
    (hc : isOther c = true) (h : Ledger.step s c = some t) : Untouched s.db t.db := by
  cases Ledger.step_effect h with
  | unrelated _ db hi ha hd => exact .of_index hp (by rw [hi]) (by rw [ha]) (by rw [hd])
  | created => cases hc
  | dispatched => exact .of_index hp rfl rfl (by simp [dispatchPending, commitDispatches])
  | marked => exact markRunning hp rfl
  | finished => exact markFinished hp rfl
  | recovered => exact .of_index hp (by simp) (by simp) (by simp)

end Untouched

/-- The stage of call `n` agrees with what the call committed. -/
def Explained (commits : List Commit) (n : Nat) (c : CreateCall) : Prop :=
  match c.stage with
  | .refresh id => ∃ m ∈ commits, m.call = n ∧ m.invocationId = id
  | .returned ⟨i, true⟩ => ∃ m ∈ commits, m.call = n ∧ m.invocationId = i.id
  | .returned ⟨i, false⟩ =>
    (∀ m ∈ commits, m.call ≠ n) ∧
      ∃ m ∈ commits, m.invocationId = i.id ∧ m.ownerKey = c.request.ownerKey ∧ m.ownerKey ≠ none
  | _ => ∀ m ∈ commits, m.call ≠ n

/-- A commit of another call explains the same stage. -/
theorem Explained.append {commits : List Commit} {n : Nat} {c : CreateCall} {m : Commit}
    (h : Explained commits n c) (hm : m.call ≠ n) : Explained (commits ++ [m]) n c := by
  have hnone : (∀ m' ∈ commits, m'.call ≠ n) → ∀ m' ∈ commits ++ [m], m'.call ≠ n := by
    intro hall m' hm'
    rcases List.mem_append.mp hm' with hm' | hm'
    · exact hall m' hm'
    · rw [List.mem_singleton.mp hm']
      exact hm
  unfold Explained at h ⊢
  split at h
  · obtain ⟨m', hm', hp⟩ := h
    exact ⟨m', List.mem_append_left _ hm', hp⟩
  · obtain ⟨m', hm', hp⟩ := h
    exact ⟨m', List.mem_append_left _ hm', hp⟩
  · obtain ⟨hall, m', hm', hp⟩ := h
    exact ⟨hnone hall, m', List.mem_append_left _ hm', hp⟩
  · exact hnone h

structure Inv (s : State) : Prop where
  sound : Sound s.db
  invocations : s.db.invocations.index = s.commits.map fun m => (m.invocationId, m.ownerKey)
  first : firstDispatches s.db = s.commits.map fun m => (m.dispatchId, some (m.invocationId, 1))
  nodup : (s.commits.map (·.call)).Nodup
  maker : ∀ m ∈ s.commits, ∃ c, s.calls[m.call]? = some c ∧ m.ownerKey = c.request.ownerKey
  explained : ∀ n c, s.calls[n]? = some c → Explained s.commits n c

namespace Inv

variable {s : State}

theorem start (h : init s) : Inv s := by
  obtain ⟨ledger, calls, commits⟩ := s
  obtain ⟨⟨functions, versions, rfl⟩, rfl, rfl⟩ := h
  exact ⟨⟨fun _ hx => absurd hx List.not_mem_nil, fun _ hx => absurd hx List.not_mem_nil⟩, rfl, rfl,
    List.nodup_nil, by simp, by simp⟩

theorem accept (h : Inv s) (request : CreateRequest) :
    Inv { s with calls := s.calls ++ [{ request := request }] } := by
  have hlt : ∀ m ∈ s.commits, m.call < s.calls.length := by
    intro m hm
    obtain ⟨c, hc, -⟩ := h.maker m hm
    exact (List.getElem?_eq_some_iff.mp hc).1
  refine ⟨h.sound, h.invocations, h.first, h.nodup, fun m hm => ?_, fun n c hc => ?_⟩
  · obtain ⟨c, hc, hk⟩ := h.maker m hm
    exact ⟨c, by rw [List.getElem?_append_left (hlt m hm)]; exact hc, hk⟩
  · rw [List.getElem?_append] at hc
    split at hc
    · exact h.explained n c hc
    · -- a new call: every commit belongs to an older one
      obtain ⟨-, rfl⟩ := by simpa [List.getElem?_singleton] using hc
      intro m hm he
      have := hlt m hm
      omega

theorem other (h : Inv s) {l : Ledger.State} (hu : Untouched s.db l.db) :
    Inv { s with ledger := l } where
  sound := hu.sound
  invocations := hu.invocations.trans h.invocations
  first := hu.first.trans h.first
  nodup := h.nodup
  maker := h.maker
  explained := h.explained

/-- Moving one call to a stage its commits explain. -/
theorem setStage (h : Inv s) {n : Nat} {c : CreateCall} {stage : Stage}
    (hc : s.calls[n]? = some c) (he : Explained s.commits n { c with stage := stage }) :
    Inv (s.setStage n c stage) := by
  refine ⟨h.sound, h.invocations, h.first, h.nodup, fun m hm => ?_, fun k c' hk => ?_⟩
  · obtain ⟨c', hc', hkey⟩ := h.maker m hm
    simp only [State.setStage, List.getElem?_set]
    by_cases hn : n = m.call
    · subst hn
      obtain rfl : c = c' := Option.some.inj (hc.symm.trans hc')
      have hlt := (List.getElem?_eq_some_iff.mp hc).1
      exact ⟨{ c with stage := stage }, by simp [hlt], hkey⟩
    · exact ⟨c', by rw [if_neg hn]; exact hc', hkey⟩
  · simp only [State.setStage, List.getElem?_set] at hk
    split at hk
    · rename_i hn
      subst hn
      simp only [Option.ite_none_right_eq_some, Option.some.injEq] at hk
      exact hk.2 ▸ he
    · exact h.explained k c' hk

/-- A committed insert by call `n`, which had committed nothing before. -/
theorem commit (h : Inv s) {n : Nat} {c : CreateCall} {version : FunctionVersion}
    {invocationId dispatchId : UUID} {now : Time} {db : Database} (hc : s.calls[n]? = some c)
    (hst : c.stage = .insert version)
    (hv : insertInvocation s.db c.request version invocationId dispatchId now = .ok db) :
    Inv { s.setStage n c (.refresh invocationId) with
      ledger := { s.ledger with db := db }
      commits := s.commits ++ [⟨n, c.request.ownerKey, invocationId, dispatchId⟩] } := by
  have hnone : ∀ m ∈ s.commits, m.call ≠ n := by
    simpa [Explained, hst] using h.explained n c hc
  have hlt := (List.getElem?_eq_some_iff.mp hc).1
  obtain ⟨invocations, dispatches, hi, hd, rfl⟩ := insertInvocation_ok hv
  refine ⟨⟨h.sound.positive, fun x hx p hxp => ?_⟩, ?_, ?_, ?_, fun m hm => ?_, fun k c' hk => ?_⟩
  · show p.1 ∈ invocations.index.map Prod.fst
    rw [Table.index_insert hi, List.map_append]
    replace hx : x ∈ dispatches.index := hx
    rw [Table.index_insert hd] at hx
    rcases List.mem_append.mp hx with hx | hx
    · exact List.mem_append_left _ (h.sound.owned x hx p hxp)
    · rw [List.mem_singleton.mp hx] at hxp
      cases hxp
      exact List.mem_append_right _ (List.mem_singleton_self _)
  · rw [List.map_append, ← h.invocations]
    exact Table.index_insert hi
  · rw [List.map_append, ← h.first]
    show dispatches.index.filter _ = _
    rw [Table.index_insert hd, List.filter_append]
    rfl
  · rw [List.map_append, List.map_singleton, ← List.concat_eq_append]
    refine h.nodup.concat fun hm => ?_
    obtain ⟨m, hm, he⟩ := List.mem_map.mp hm
    exact hnone m hm he
  · simp only [State.setStage, List.getElem?_set]
    rcases List.mem_append.mp hm with hm | hm
    · obtain ⟨c', hc', hkey⟩ := h.maker m hm
      exact ⟨c', by rw [if_neg (hnone m hm).symm]; exact hc', hkey⟩
    · rw [List.mem_singleton.mp hm]
      exact ⟨{ c with stage := .refresh invocationId }, by simp [hlt], rfl⟩
  · simp only [State.setStage, List.getElem?_set] at hk
    split at hk
    · rename_i hn
      subst hn
      simp only [Option.some.injEq] at hk
      rw [← hk]
      exact ⟨⟨n, c.request.ownerKey, invocationId, dispatchId⟩,
        List.mem_append_right _ (List.mem_singleton_self _), rfl, rfl⟩
    · rename_i hn
      exact (h.explained k c' hk).append hn

/-- A row of the invocation table has a commit, and a commit has its row. -/
theorem exists_commit (h : Inv s) {i : Invocation} (hi : i ∈ s.db.invocations) :
    ∃ m ∈ s.commits, m.invocationId = i.id ∧ m.ownerKey = i.ownerKey := by
  have hx : (i.id, i.ownerKey) ∈ s.db.invocations.index := Table.mem_index.mpr ⟨i, hi, rfl⟩
  rw [h.invocations] at hx
  obtain ⟨m, hm, he⟩ := List.mem_map.mp hx
  exact ⟨m, hm, congrArg Prod.fst he, congrArg Prod.snd he⟩

theorem exists_row (h : Inv s) {m : Commit} (hm : m ∈ s.commits) :
    ∃ i ∈ s.db.invocations, i.id = m.invocationId ∧ i.ownerKey = m.ownerKey := by
  have hx := List.mem_map_of_mem (f := fun m : Commit => (m.invocationId, m.ownerKey)) hm
  rw [← h.invocations] at hx
  obtain ⟨i, hi, he⟩ := Table.mem_index.mp hx
  exact ⟨i, hi, congrArg Prod.fst he, congrArg Prod.snd he⟩

/-- Two commits of one invocation are the same commit. -/
theorem commit_unique (h : Inv s) {m m' : Commit} (hm : m ∈ s.commits) (hm' : m' ∈ s.commits)
    (he : m.invocationId = m'.invocationId) : m = m' := by
  have hids : s.db.invocations.rows.map Invocation.id = s.commits.map (·.invocationId) := by
    have := congrArg (List.map Prod.fst) h.invocations
    simpa [Table.index, Function.comp_def] using this
  have hn : (s.commits.map (·.invocationId)).Nodup := hids ▸ s.db.invocations.primary
  exact List.inj_on_of_nodup_map hn hm hm' he

theorem advance (h : Inv s) {n : Nat} {c : CreateCall} {invocationId dispatchId : UUID}
    {now : Time} {stage : Stage} (hc : s.calls[n]? = some c)
    (ha : Advanced s.db c invocationId dispatchId now stage none) : Inv (s.setStage n c stage) := by
  have he := h.explained n c hc
  apply h.setStage hc
  cases ha with
  | found i hst hi =>
    have hnone : ∀ m ∈ s.commits, m.call ≠ n := by
      rcases hst with hst | ⟨v, hst⟩ <;> simpa [Explained, hst] using he
    obtain ⟨hi, hkey, hk⟩ := CreateRequest.existing_some hi
    obtain ⟨m, hm, hid, hmk⟩ := h.exists_commit hi
    refine ⟨hnone, m, hm, hid, hmk.trans hkey, ?_⟩
    rw [hmk, hkey, CreateRequest.ownerKey, Ne, Option.map_eq_none_iff]
    exact hk
  | missing hst => simpa [Explained, hst] using he
  | resolved version hst => simpa [Explained, hst] using he
  | rejected version violation hst => simpa [Explained, hst] using he
  | failed error hst => rcases hst with hst | ⟨v, hst⟩ <;> simpa [Explained, hst] using he
  | refreshed id i hst hget =>
    obtain ⟨m, hm, hcall, hid⟩ := by simpa [Explained, hst] using he
    exact ⟨m, hm, hcall, hid.trans (Table.get_key hget).symm⟩
  | vanished id hst hget =>
    -- the row was committed and nothing deletes it
    obtain ⟨m, hm, hcall, hid⟩ := by simpa [Explained, hst] using he
    obtain ⟨i, hi, hik, -⟩ := h.exists_row hm
    exact absurd (hik.trans hid) (Table.get_eq_none.mp hget i hi)

theorem step {t : State} {e : Event} (h : Inv s) (hs : Requests.step s e = some t) : Inv t := by
  cases e with
  | accept request =>
    cases hs
    exact h.accept request
  | advance n invocationId dispatchId now =>
    simp only [Requests.step] at hs
    cases hc : s.calls[n]? with
    | none => simp [hc] at hs
    | some c =>
      simp only [hc] at hs
      cases ha : Requests.advance s.db c invocationId dispatchId now with
      | none => simp [ha] at hs
      | some p =>
        obtain ⟨stage, db⟩ := p
        have hadv := advance_cases ha
        cases db with
        | none =>
          simp only [ha, Option.some.injEq] at hs
          exact hs ▸ h.advance hc hadv
        | some db =>
          simp only [ha, Option.some.injEq] at hs
          cases hadv with
          | committed version _ hst hv => exact hs ▸ h.commit hc hst hv
  | other call =>
    simp only [Requests.step, Option.ite_none_right_eq_some, Option.map_eq_some_iff] at hs
    obtain ⟨hother, l, hl, rfl⟩ := hs
    exact h.other (Untouched.of_step h.sound hother hl)

end Inv

theorem inv_reachable {s : State} (h : Reachable step init s) : Inv s :=
  h.invariant (fun _ => Inv.start) fun _ hi hs => hi.step hs

/-- The outbox rows numbered 1 of one invocation. -/
def firstDispatchesOf (db : Database) (id : UUID) : List InvocationDispatch :=
  (db.dispatchesOf id).filter fun d => d.attemptNumber = 1

/-- Call `n` is one of the accepted calls and has come to `stage`. -/
def State.At (s : State) (n : Nat) (request : CreateRequest) (stage : Stage) : Prop :=
  s.calls[n]? = some ⟨request, stage⟩

/-- Call `n` is the one whose insert committed invocation `id`. -/
def State.Inserted (s : State) (n : Nat) (id : UUID) : Prop :=
  ∃ m ∈ s.commits, m.call = n ∧ m.invocationId = id

/-- What idempotent creation promises about a state. -/
structure Idempotent (s : State) : Prop where
  /-- One invocation for each owner and key. -/
  unique : ∀ i ∈ s.db.invocations, ∀ j ∈ s.db.invocations, i.ownerId = j.ownerId →
    i.idempotencyKey = j.idempotencyKey → i.idempotencyKey ≠ none → i = j
  /-- A call with a key that returns, returns the invocation of its owner and key. -/
  same : ∀ n request result key, s.At n request (.returned result) →
    request.idempotencyKey = some key → ∃ i ∈ s.db.invocations,
      i.ownerId = request.ownerId ∧ i.idempotencyKey = some key ∧ result.invocation.id = i.id
  /-- Every invocation was inserted by exactly one call. -/
  inserter : ∀ i ∈ s.db.invocations, ∃! n, s.Inserted n i.id
  /-- That call alone reports the invocation as created. -/
  created : ∀ n request result, s.At n request (.returned result) →
    (result.created = true ↔ s.Inserted n result.invocation.id)
  /-- Each invocation has one outbox row numbered 1, the one its insert committed with it. -/
  dispatched : ∀ i ∈ s.db.invocations, ∃ m ∈ s.commits, ∃ d,
    m.invocationId = i.id ∧ m.dispatchId = d.id ∧ firstDispatchesOf s.db i.id = [d]
  /-- Rows come from commits only. -/
  rows : s.db.invocations.rows.map (·.id) = s.commits.map (·.invocationId) ∧
    (s.db.dispatches.rows.filter fun d => d.attemptNumber = 1).map (·.id) =
      s.commits.map (·.dispatchId)
  /-- A call that raises has committed nothing. -/
  raised : ∀ n request error, s.At n request (.raised error) → ∀ m ∈ s.commits, m.call ≠ n
  /-- A call without a key that returns has created a new invocation. -/
  keyless : ∀ n request result, s.At n request (.returned result) →
    request.idempotencyKey = none → result.created = true ∧ s.Inserted n result.invocation.id
  /-- Only a reused row id can stop the insert of a call without a key. The insert here takes every
  payload; one that the `JSONB` column refuses (with a NUL, a `NaN` or a lone surrogate) stops it
  as well, and is set aside. -/
  keylessInsert : ∀ n request version invocationId dispatchId now,
    s.At n request (.insert version) → request.idempotencyKey = none →
    s.db.invocations.get invocationId = none → s.db.dispatches.get dispatchId = none →
    ∃ t, step s (.advance n invocationId dispatchId now) = some t ∧ t.Inserted n invocationId

theorem firstDispatches_rows (db : Database) :
    firstDispatches db = (db.dispatches.rows.filter fun d => d.attemptNumber = 1).map fun d =>
      (d.id, d.invocationNumber) := by
  unfold firstDispatches Table.index
  rw [List.filter_map]
  refine congrArg _ (List.filter_congr fun d _ => ?_)
  simp [InvocationDispatch.invocationNumber]

/-- Two rows numbered 1 of one invocation are the same row. -/
theorem firstDispatchesOf_eq {db : Database} {id : UUID} {d : InvocationDispatch}
    (hd : d ∈ db.dispatches) (hid : d.invocationId = id) (hn : d.attemptNumber = 1) :
    firstDispatchesOf db id = [d] := by
  have hnodup : (firstDispatchesOf db id).Nodup :=
    ((List.Nodup.of_map _ db.dispatches.primary).filter _).filter _
  have hmem : ∀ e ∈ firstDispatchesOf db id, e = d := by
    intro e he
    obtain ⟨he, hen⟩ := List.mem_filter.mp he
    obtain ⟨he, hei⟩ := Database.mem_dispatchesOf.mp he
    exact Database.dispatch_eq_of_number he hd (hei.trans hid.symm)
      ((of_decide_eq_true hen).trans hn.symm)
  have hd' : d ∈ firstDispatchesOf db id :=
    List.mem_filter.mpr ⟨Database.mem_dispatchesOf.mpr ⟨hd, hid⟩, decide_eq_true hn⟩
  apply List.perm_singleton.mp
  rw [List.perm_ext_iff_of_nodup hnodup (List.nodup_singleton d)]
  intro e
  rw [List.mem_singleton]
  exact ⟨hmem e, fun he => he ▸ hd'⟩

namespace Inv

variable {s : State}

theorem inserted_unique (h : Inv s) {n n' : Nat} {id : UUID} (hn : s.Inserted n id)
    (hn' : s.Inserted n' id) : n = n' := by
  obtain ⟨m, hm, rfl, hid⟩ := hn
  obtain ⟨m', hm', rfl, hid'⟩ := hn'
  rw [h.commit_unique hm hm' (hid.trans hid'.symm)]

theorem first_row (h : Inv s) {m : Commit} (hm : m ∈ s.commits) :
    ∃ d ∈ s.db.dispatches, d.id = m.dispatchId ∧ d.invocationId = m.invocationId ∧
      d.attemptNumber = 1 := by
  have hx := List.mem_map_of_mem
    (f := fun m : Commit => (m.dispatchId, some (m.invocationId, 1))) hm
  rw [← h.first] at hx
  obtain ⟨d, hd, he⟩ := Table.mem_index.mp (List.mem_filter.mp hx).1
  simp only [InvocationDispatch.invocationNumber, Prod.mk.injEq, Option.some.injEq] at he
  exact ⟨d, hd, he⟩

/-- The commit behind the invocation a call returns. -/
theorem returned_commit (h : Inv s) {n : Nat} {request : CreateRequest}
    {result : InvocationCreateResult} (hat : s.At n request (.returned result)) :
    ∃ m ∈ s.commits, m.invocationId = result.invocation.id ∧ m.ownerKey = request.ownerKey ∧
      (result.created = true ↔ m.call = n) ∧ (result.created = false → m.ownerKey ≠ none) := by
  have he := h.explained n _ hat
  obtain ⟨i, created⟩ := result
  cases created with
  | true =>
    obtain ⟨m, hm, rfl, hid⟩ := he
    obtain ⟨c, hc, hkey⟩ := h.maker m hm
    obtain rfl := Option.some.inj (hc.symm.trans hat)
    exact ⟨m, hm, hid, hkey, by simp, by simp⟩
  | false =>
    obtain ⟨hnone, m, hm, hid, hkey, hne⟩ := he
    exact ⟨m, hm, hid, hkey, by simpa using hnone m hm, fun _ => hne⟩

/-- The insert of a call without a key meets no index value. -/
theorem keyless_insert {db : Database} {request : CreateRequest} (version : FunctionVersion)
    {invocationId dispatchId : UUID} (now : Time) (hk : request.idempotencyKey = none)
    (hs : Sound db) (hi : db.invocations.get invocationId = none)
    (hd : db.dispatches.get dispatchId = none) :
    ∃ db', insertInvocation db request version invocationId dispatchId now = .ok db' := by
  obtain ⟨invocations, hinv⟩ := Table.insert_ok (t := db.invocations)
    (r := newInvocation request version invocationId now) hi
    (fun x hx => by simp [newInvocation, Invocation.ownerKey, hk] at hx)
  obtain ⟨dispatches, hdis⟩ := Table.insert_ok (t := db.dispatches)
    (r := firstDispatch invocationId dispatchId now) hd (fun x hx d hd hdx => by
      cases hx
      simp only [InvocationDispatch.invocationNumber, firstDispatch, Option.some.injEq,
        Prod.mk.injEq] at hdx
      obtain ⟨y, hy, hyd⟩ := List.mem_map.mp
        (hs.owned _ (Table.mem_index.mpr ⟨d, hd, rfl⟩) _ rfl)
      obtain ⟨i, him, rfl⟩ := Table.mem_index.mp hy
      exact Table.get_eq_none.mp hi i him (hyd.trans hdx.1))
  exact ⟨{ db with invocations := invocations, dispatches := dispatches },
    by simp [insertInvocation, hinv, hdis, bind, Except.bind, pure, Except.pure]⟩

end Inv

/-- **Creation is idempotent under every interleaving of calls.** -/
theorem idempotent_creation {s : State} (h : Reachable step init s) : Idempotent s := by
  have hi := inv_reachable h
  refine ⟨fun i him j hjm ho hk hne => ?_, fun n request result key hat hkey => ?_, fun i him => ?_,
    fun n request result hat => ?_, fun i him => ?_, ⟨?_, ?_⟩, fun n request error hat => ?_,
    fun n request result hat hk => ?_,
    fun n request version invocationId dispatchId now hat hk hfi hfd => ?_⟩
  · obtain ⟨key, hkey⟩ := Option.ne_none_iff_exists'.mp hne
    exact Table.eq_of_uniq him hjm (x := (i.ownerId, key))
      (by simp [Invocation.ownerKey, hkey]) (by simp [Invocation.ownerKey, ← hk, hkey, ho])
  · obtain ⟨m, hm, hid, hmk, -⟩ := hi.returned_commit hat
    obtain ⟨i, him, hi', hik⟩ := hi.exists_row hm
    have hpair : i.ownerKey = some (request.ownerId, key) := by
      rw [hik, hmk, CreateRequest.ownerKey, hkey, Option.map_some]
    simp only [Invocation.ownerKey, Option.map_eq_some_iff, Prod.mk.injEq] at hpair
    obtain ⟨k, hk, ho, rfl⟩ := hpair
    exact ⟨i, him, ho, hk, hid.symm.trans hi'.symm⟩
  · obtain ⟨m, hm, hid, -⟩ := hi.exists_commit him
    exact ⟨m.call, ⟨m, hm, rfl, hid⟩, fun n hn => hi.inserted_unique hn ⟨m, hm, rfl, hid⟩⟩
  · obtain ⟨m, hm, hid, -, hcreated, -⟩ := hi.returned_commit hat
    rw [hcreated]
    exact ⟨fun hn => ⟨m, hm, hn, hid⟩, fun hn => hi.inserted_unique ⟨m, hm, rfl, hid⟩ hn⟩
  · obtain ⟨m, hm, hid, -⟩ := hi.exists_commit him
    obtain ⟨d, hd, hdid, hdi, hdn⟩ := hi.first_row hm
    exact ⟨m, hm, d, hid, hdid.symm, firstDispatchesOf_eq hd (hdi.trans hid) hdn⟩
  · have := congrArg (List.map Prod.fst) hi.invocations
    simpa [Table.index, Function.comp_def] using this
  · have := congrArg (List.map Prod.fst) ((firstDispatches_rows s.db).symm.trans hi.first)
    simpa [Function.comp_def] using this
  · simpa [Explained] using hi.explained n _ hat
  · obtain ⟨m, hm, hid, hmk, hcreated, hfalse⟩ := hi.returned_commit hat
    have hct : result.created = true := by
      by_contra hc
      apply hfalse (by simpa using hc)
      rw [hmk, CreateRequest.ownerKey, hk, Option.map_none]
    exact ⟨hct, m, hm, hcreated.mp hct, hid⟩
  · obtain ⟨db', hins⟩ := Inv.keyless_insert version now hk hi.sound hfi hfd
    have hcall : s.calls[n]? = some ⟨request, .insert version⟩ := hat
    refine ⟨_, by simp only [step, hcall, advance, hins]; rfl, ?_⟩
    exact ⟨⟨n, request.ownerKey, invocationId, dispatchId⟩,
      List.mem_append_right _ (List.mem_singleton_self _), rfl, rfl⟩

/-- Two calls with one key: both find nothing, both try to insert, one is rejected. -/
def race : List Event :=
  [.other (.createFunction ⟨1, 7, "hello", none⟩),
    .other (.createFunctionVersion (helloVersion 30)),
    .accept { ownerId := 7, functionName := "hello", payload := .null, idempotencyKey := some "k" },
    .accept { ownerId := 7, functionName := "hello", payload := .null, idempotencyKey := some "k" },
    .advance 0 0 0 0, .advance 1 0 0 0, .advance 0 0 0 0, .advance 1 0 0 0,
    .advance 0 3 4 0, .advance 1 5 6 0, .advance 1 0 0 0, .advance 0 0 0 0]

def start : State := ⟨Ledger.empty, [], []⟩

theorem init_start : init start := ⟨Ledger.init_empty, rfl, rfl⟩

/-- What a call asked for, and `created` of its result once it has returned. -/
def CreateCall.outcome (c : CreateCall) : UUID × Option String × Option Bool :=
  (c.request.ownerId, c.request.idempotencyKey,
    match c.stage with
    | .returned result => some result.created
    | _ => none)

theorem CreateCall.at_of_outcome {s : State} {outcomes : List (UUID × Option String × Option Bool)}
    (h : s.calls.map CreateCall.outcome = outcomes) {n : Nat} {owner : UUID} {key : Option String}
    {created : Bool} (hn : outcomes[n]? = some (owner, key, some created)) :
    ∃ request r, s.At n request (.returned r) ∧ request.ownerId = owner ∧
      request.idempotencyKey = key ∧ r.created = created := by
  rw [← h, List.getElem?_map, Option.map_eq_some_iff] at hn
  obtain ⟨⟨request, stage⟩, hc, ho⟩ := hn
  cases stage with
  | returned r =>
    simp only [CreateCall.outcome, Prod.mk.injEq, Option.some.injEq] at ho
    exact ⟨request, r, hc, ho⟩
  | _ => simp [CreateCall.outcome] at ho

/-- The calls of `race` return the same invocation, and the first of them created it. -/
theorem idempotent_creation_race : ∃ s, Reachable step init s ∧ ∃ request r request' r',
    s.At 0 request (.returned r) ∧ s.At 1 request' (.returned r') ∧
    r.invocation.id = r'.invocation.id ∧ s.Inserted 0 r.invocation.id ∧
    ¬ s.Inserted 1 r'.invocation.id := by
  obtain ⟨s, hs, hp⟩ := reachable_of_replay step race
    (fun s => decide (s.calls.map CreateCall.outcome =
      [(7, some "k", some true), (7, some "k", some false)])) init_start (by decide)
  have hi := idempotent_creation hs
  obtain ⟨request, r, hat, ho, hk, hc⟩ := CreateCall.at_of_outcome (of_decide_eq_true hp)
    (n := 0) rfl
  obtain ⟨request', r', hat', ho', hk', hc'⟩ := CreateCall.at_of_outcome (of_decide_eq_true hp)
    (n := 1) rfl
  obtain ⟨i, him, hio, hik, hid⟩ := hi.same 0 request r "k" hat hk
  obtain ⟨j, hjm, hjo, hjk, hjd⟩ := hi.same 1 request' r' "k" hat' hk'
  have hij : i = j := hi.unique i him j hjm (by rw [hio, hjo, ho, ho']) (by rw [hik, hjk])
    (by simp [hik])
  refine ⟨s, hs, request, r, request', r', hat, hat', by rw [hid, hjd, hij],
    (hi.created 0 request r hat).mp hc, fun hn => ?_⟩
  have := (hi.created 1 request' r' hat').mpr hn
  simp [hc'] at this

end Serverless.Requests
