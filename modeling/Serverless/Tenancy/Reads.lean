import Serverless.Tenancy.Views

/-!
# Queries read the owner's rows only

Tables that look the same to an owner give the same answers to every query that is made for that
owner, in whatever order they keep the rows and whatever they hold for others.
-/
namespace Serverless.Tenancy

open Serverless.Library Serverless.Model

/-- Two stores of rows have the rows of an owner in common. -/
structure Agree (s t : Tables) (ownerId : UUID) : Prop where
  user : s.users.get ownerId = t.users.get ownerId
  function : ∀ f, f.ownerId = ownerId → (f ∈ s.db.functions ↔ f ∈ t.db.functions)
  functionCreatedAt : ∀ f ∈ s.db.functions, f.ownerId = ownerId →
    s.functionCreatedAt f.id = t.functionCreatedAt f.id
  ownsFunction : ∀ id, OwnsFunction s.db ownerId id ↔ OwnsFunction t.db ownerId id
  version : ∀ v, OwnsFunction s.db ownerId v.functionId → (v ∈ s.db.versions ↔ v ∈ t.db.versions)
  versionCreatedAt : ∀ v ∈ s.db.versions, OwnsFunction s.db ownerId v.functionId →
    s.versionCreatedAt v.id = t.versionCreatedAt v.id
  invocation : ∀ i, i.ownerId = ownerId → (i ∈ s.db.invocations ↔ i ∈ t.db.invocations)
  ownsInvocation : ∀ id, OwnsInvocation s.db ownerId id ↔ OwnsInvocation t.db ownerId id
  attempt : ∀ a, OwnsInvocation s.db ownerId a.invocationId →
    (a ∈ s.db.attempts ↔ a ∈ t.db.attempts)
  dispatch : ∀ d, OwnsInvocation s.db ownerId d.invocationId →
    (d ∈ s.db.dispatches ↔ d ∈ t.db.dispatches)

theorem Agree.of_view {s t : Tables} {ownerId : UUID} (h : view s ownerId = view t ownerId) :
    Agree s t ownerId := by
  have hfunctions : ∀ r, r ∈ (view s ownerId).functions ↔ r ∈ (view t ownerId).functions := by simp [h]
  have hversions : ∀ r, r ∈ (view s ownerId).versions ↔ r ∈ (view t ownerId).versions := by simp [h]
  have hinvocations : ∀ i, i ∈ (view s ownerId).invocations ↔ i ∈ (view t ownerId).invocations := by
    simp [h]
  have hattempts : ∀ a, a ∈ (view s ownerId).attempts ↔ a ∈ (view t ownerId).attempts := by simp [h]
  have hdispatches : ∀ d, d ∈ (view s ownerId).dispatches ↔ d ∈ (view t ownerId).dispatches := by
    simp [h]
  have hf : ∀ f, f.ownerId = ownerId → (f ∈ s.db.functions ↔ f ∈ t.db.functions) := fun f ho =>
    ⟨fun hf => ((hfunctions (s.readFunction f)).mp ⟨hf, ho, rfl⟩).1,
      fun hf => ((hfunctions (t.readFunction f)).mpr ⟨hf, ho, rfl⟩).1⟩
  have hi : ∀ i, i.ownerId = ownerId → (i ∈ s.db.invocations ↔ i ∈ t.db.invocations) := fun i ho =>
    ⟨fun hi => ((hinvocations i).mp ⟨hi, ho⟩).1, fun hi => ((hinvocations i).mpr ⟨hi, ho⟩).1⟩
  have hownsFunction : ∀ id, OwnsFunction s.db ownerId id ↔ OwnsFunction t.db ownerId id := fun id =>
    ⟨fun ⟨f, hm, hid, ho⟩ => ⟨f, (hf f ho).mp hm, hid, ho⟩,
      fun ⟨f, hm, hid, ho⟩ => ⟨f, (hf f ho).mpr hm, hid, ho⟩⟩
  have hownsInvocation : ∀ id, OwnsInvocation s.db ownerId id ↔ OwnsInvocation t.db ownerId id := fun id =>
    ⟨fun ⟨i, hm, hid, ho⟩ => ⟨i, (hi i ho).mp hm, hid, ho⟩,
      fun ⟨i, hm, hid, ho⟩ => ⟨i, (hi i ho).mpr hm, hid, ho⟩⟩
  exact {
    user := congrArg OwnerView.user h
    function := hf
    functionCreatedAt := fun f hm ho => ((hfunctions (s.readFunction f)).mp ⟨hm, ho, rfl⟩).2.2
    ownsFunction := hownsFunction
    version := fun v ho =>
      ⟨fun hv => ((hversions (s.readVersion v)).mp ⟨hv, ho, rfl⟩).1,
        fun hv => ((hversions (t.readVersion v)).mpr ⟨hv, (hownsFunction _).mp ho, rfl⟩).1⟩
    versionCreatedAt := fun v hm ho => ((hversions (s.readVersion v)).mp ⟨hm, ho, rfl⟩).2.2
    invocation := hi
    ownsInvocation := hownsInvocation
    attempt := fun a ho =>
      ⟨fun ha => ((hattempts a).mp ⟨ha, ho⟩).1,
        fun ha => ((hattempts a).mpr ⟨ha, (hownsInvocation _).mp ho⟩).1⟩
    dispatch := fun d ho =>
      ⟨fun hd => ((hdispatches d).mp ⟨hd, ho⟩).1,
        fun hd => ((hdispatches d).mpr ⟨hd, (hownsInvocation _).mp ho⟩).1⟩ }

namespace Agree

variable {s t : Tables} {ownerId : UUID}

/-! ## Functions and versions -/

theorem getFunctionByName (h : Agree s t ownerId) (name : String) :
    s.db.getFunctionByName ownerId name = t.db.getFunctionByName ownerId name := by
  refine find?_eq_of_mem ?_ ?_
  · intro f hp
    simp only [decide_eq_true_eq] at hp
    exact h.function f hp.1
  · intro f hf g hg hp hq
    simp only [decide_eq_true_eq] at hp hq
    exact Database.function_eq_of_name hf hg (hp.1.trans hq.1.symm) (hp.2.1.trans hq.2.1.symm)

/-- The function that a name stands for is the owner's. -/
theorem owns_of_name {db : Database} {name : String} {f : Function}
    (hf : db.getFunctionByName ownerId name = some f) : OwnsFunction db ownerId f.id := by
  obtain ⟨hm, ho, -⟩ := Database.getFunctionByName_some hf
  exact ⟨f, hm, rfl, ho⟩

theorem listFunctions (h : Agree s t ownerId) (collation : LinearOrder String) :
    s.listFunctions ownerId collation = t.listFunctions ownerId collation := by
  have hperm : (s.db.functions.rows.filter fun f => f.ownerId = ownerId ∧ f.deletedAt = none).Perm
      (t.db.functions.rows.filter fun f => f.ownerId = ownerId ∧ f.deletedAt = none) := by
    refine Table.filter_perm fun f => ?_
    simp only [decide_eq_true_eq]
    exact and_congr_left fun hp => h.function f hp.1
  have hread : ∀ f ∈ t.db.functions.rows.filter fun f => f.ownerId = ownerId ∧ f.deletedAt = none,
      s.readFunction f = t.readFunction f := by
    intro f hf
    obtain ⟨hm, hp⟩ := List.mem_filter.mp (hperm.symm.subset hf)
    simp only [decide_eq_true_eq] at hp
    exact congrArg (FunctionRead.mk f) (h.functionCreatedAt f hm hp.1)
  refine insertionSort_eq_of_perm ?_ ?_ ?_ ?_
  · rw [← List.map_congr_left hread]
    exact hperm.map _
  · intro a b
    rcases lt_trichotomy a.createdAt b.createdAt with hlt | heq | hgt
    · exact .inl (.inl hlt)
    · rcases collation.le_total a.function.name b.function.name with hle | hle
      · exact .inl (.inr ⟨heq, hle⟩)
      · exact .inr (.inr ⟨heq.symm, hle⟩)
    · exact .inr (.inl hgt)
  · rintro a b c (hab | ⟨hab, hle⟩) (hbc | ⟨hbc, hle'⟩)
    · exact .inl (hab.trans hbc)
    · exact .inl (hbc ▸ hab)
    · exact .inl (hab ▸ hbc)
    · exact .inr ⟨hab.trans hbc, collation.le_trans _ _ _ hle hle'⟩
  · -- names tell the functions of one owner apart
    intro a ha b hb hab hba
    obtain ⟨f, hf, rfl⟩ := List.mem_map.mp ha
    obtain ⟨g, hg, rfl⟩ := List.mem_map.mp hb
    obtain ⟨hfm, hfp⟩ := List.mem_filter.mp hf
    obtain ⟨hgm, hgp⟩ := List.mem_filter.mp hg
    simp only [decide_eq_true_eq] at hfp hgp
    have hname : f.name = g.name := by
      rcases hab with hab | ⟨hab, hle⟩
      · rcases hba with hba | ⟨hba, -⟩
        · exact absurd hba hab.asymm
        · exact absurd hba hab.ne'
      · rcases hba with hba | ⟨-, hge⟩
        · exact absurd hab hba.ne'
        · exact collation.le_antisymm _ _ hle hge
    rw [Database.function_eq_of_name hfm hgm (hfp.1.trans hgp.1.symm) hname]

theorem versionsOf (h : Agree s t ownerId) {functionId : UUID}
    (howns : OwnsFunction s.db ownerId functionId) :
    (s.db.versionsOf functionId).Perm (t.db.versionsOf functionId) := by
  refine Table.filter_perm fun v => ?_
  simp only [decide_eq_true_eq]
  exact and_congr_left fun hp => h.version v (hp ▸ howns)

theorem getNextVersionNumber (h : Agree s t ownerId) {functionId : UUID}
    (howns : OwnsFunction s.db ownerId functionId) :
    s.db.getNextVersionNumber functionId = t.db.getNextVersionNumber functionId :=
  congrArg (· + 1) (((h.versionsOf howns).map (·.versionNumber)).foldl_eq 0)

/-- The versions of a function by number, in either direction. -/
theorem sortedVersions (h : Agree s t ownerId) {functionId : UUID}
    (howns : OwnsFunction s.db ownerId functionId) {r : Nat → Nat → Prop} [DecidableRel r]
    (htotal : ∀ m n, r m n ∨ r n m) (htrans : ∀ l m n, r l m → r m n → r l n)
    (hanti : ∀ m n, r m n → r n m → m = n) :
    (s.db.versionsOf functionId).insertionSort (fun v w => r v.versionNumber w.versionNumber) =
      (t.db.versionsOf functionId).insertionSort (fun v w => r v.versionNumber w.versionNumber) := by
  refine insertionSort_eq_of_perm (h.versionsOf howns) (fun v w => htotal _ _) (fun u v w => htrans _ _ _) ?_
  intro v hv w hw hvw hwv
  obtain ⟨hv, hvf⟩ := Database.mem_versionsOf.mp hv
  obtain ⟨hw, hwf⟩ := Database.mem_versionsOf.mp hw
  exact Database.version_eq_of_number hv hw (hvf.trans hwf.symm) (hanti _ _ hvw hwv)

theorem listFunctionVersions (h : Agree s t ownerId) (functionName : String) :
    s.listFunctionVersions ownerId functionName = t.listFunctionVersions ownerId functionName := by
  unfold Tables.listFunctionVersions
  rw [← h.getFunctionByName functionName]
  cases hf : s.db.getFunctionByName ownerId functionName with
  | none => rfl
  | some f =>
    have howns := owns_of_name hf
    have hsorted := h.sortedVersions howns Nat.le_total (fun _ _ _ => Nat.le_trans) (fun _ _ => Nat.le_antisymm)
    have hread : ∀ v ∈ (t.db.versionsOf f.id).insertionSort fun v w => v.versionNumber ≤ w.versionNumber,
        s.readVersion v = t.readVersion v := by
      intro v hv
      rw [← hsorted] at hv
      obtain ⟨hm, hid⟩ := Database.mem_versionsOf.mp ((List.mem_insertionSort _).mp hv)
      exact congrArg (FunctionVersionRead.mk v) (h.versionCreatedAt v hm (hid ▸ howns))
    simp only [hsorted, List.map_congr_left hread]

theorem getNextFunctionVersionNumber (h : Agree s t ownerId) (functionName : String) :
    s.getNextFunctionVersionNumber ownerId functionName =
      t.getNextFunctionVersionNumber ownerId functionName := by
  unfold Tables.getNextFunctionVersionNumber
  rw [← h.getFunctionByName functionName]
  cases hf : s.db.getFunctionByName ownerId functionName with
  | none => rfl
  | some f => simp only [h.getNextVersionNumber (owns_of_name hf)]

theorem resolveFunctionVersion (h : Agree s t ownerId) (functionName : String)
    (versionNumber : Option Nat) :
    s.db.resolveFunctionVersion ownerId functionName versionNumber =
      t.db.resolveFunctionVersion ownerId functionName versionNumber := by
  have hfind := h.getFunctionByName functionName
  unfold Database.getFunctionByName at hfind
  unfold Database.resolveFunctionVersion
  rw [← hfind]
  cases hf : s.db.functions.rows.find? fun f =>
      f.ownerId = ownerId ∧ f.name = functionName ∧ f.deletedAt = none with
  | none => rfl
  | some f =>
    have howns : OwnsFunction s.db ownerId f.id := owns_of_name hf
    cases versionNumber with
    | none =>
      have hsorted := h.sortedVersions (r := fun m n => n ≤ m) howns (fun m n => Nat.le_total n m)
        (fun _ _ _ hlm hmn => Nat.le_trans hmn hlm) (fun _ _ hmn hnm => Nat.le_antisymm hnm hmn)
      unfold Database.versionsOf at hsorted
      simp only [hsorted]
    | some n =>
      have hsame : (s.db.versionsOf f.id).find? (fun v => v.versionNumber = n) =
          (t.db.versionsOf f.id).find? fun v => v.versionNumber = n := by
        refine find?_eq_of_mem (fun v _ => (h.versionsOf howns).mem_iff) ?_
        intro v hv w hw hvn hwn
        simp only [decide_eq_true_eq] at hvn hwn
        obtain ⟨hv, hvf⟩ := Database.mem_versionsOf.mp hv
        obtain ⟨hw, hwf⟩ := Database.mem_versionsOf.mp hw
        exact Database.version_eq_of_number hv hw (hvf.trans hwf.symm) (hvn.trans hwn.symm)
      unfold Database.versionsOf at hsame
      simp only [hsame]

/-! ## Invocations -/

/-- With an idempotency key at most one row meets the look-up. -/
theorem getInvocationByIdempotencyKey (h : Agree s t ownerId) (key : String) :
    s.db.getInvocationByIdempotencyKey ownerId key = t.db.getInvocationByIdempotencyKey ownerId key := by
  unfold Database.getInvocationByIdempotencyKey
  refine congrArg List.head? (insertionSort_eq_of_perm ?_ ?_ ?_ ?_)
  · refine Table.filter_perm fun i => ?_
    simp only [decide_eq_true_eq]
    exact and_congr_left fun hp => h.invocation i hp.1
  · exact fun i j => Int.le_total _ _
  · exact fun _ _ _ => Int.le_trans
  · intro i hi j hj _ _
    obtain ⟨hi, hip⟩ := List.mem_filter.mp hi
    obtain ⟨hj, hjp⟩ := List.mem_filter.mp hj
    simp only [decide_eq_true_eq] at hip hjp
    exact Table.eq_of_uniq hi hj (x := (ownerId, key)) (by simp [Invocation.ownerKey, hip])
      (by simp [Invocation.ownerKey, hjp])

theorem existing (h : Agree s t ownerId) {request : CreateRequest} (howner : request.ownerId = ownerId) :
    request.existing s.db = request.existing t.db := by
  unfold CreateRequest.existing
  rw [howner]
  exact congrArg (request.idempotencyKey.bind) (funext h.getInvocationByIdempotencyKey)

theorem getInvocation (h : Agree s t ownerId) (invocationId : UUID) :
    s.db.getInvocation ownerId invocationId = t.db.getInvocation ownerId invocationId := by
  have hfind : (s.db.invocations.rows.find? fun i => i.id = invocationId ∧ i.ownerId = ownerId) =
      t.db.invocations.rows.find? fun i => i.id = invocationId ∧ i.ownerId = ownerId := by
    refine find?_eq_of_mem ?_ ?_
    · intro i hp
      simp only [decide_eq_true_eq] at hp
      exact h.invocation i hp.2
    · intro i hi j hj hp hq
      simp only [decide_eq_true_eq] at hp hq
      exact Table.eq_of_key hi hj (hp.1.trans hq.1.symm)
  unfold Database.getInvocation
  rw [hfind]

theorem owns_of_get {db : Database} {invocationId : UUID} {i : Invocation}
    (hi : db.getInvocation ownerId invocationId = .ok i) : OwnsInvocation db ownerId i.id := by
  unfold Database.getInvocation at hi
  split at hi
  · cases hi
  · rename_i hfind
    cases hi
    have hp := List.find?_some hfind
    simp only [decide_eq_true_eq] at hp
    exact ⟨i, List.mem_of_find?_eq_some hfind, rfl, hp.2⟩

theorem getLatestLogsRef (h : Agree s t ownerId) (invocationId : UUID) :
    s.db.getLatestLogsRef ownerId invocationId = t.db.getLatestLogsRef ownerId invocationId := by
  unfold Database.getLatestLogsRef
  rw [← h.getInvocation invocationId]
  cases hi : s.db.getInvocation ownerId invocationId with
  | error e => rfl
  | ok i =>
    have howns := owns_of_get hi
    have hsorted : (s.db.attemptsOf i.id).insertionSort (fun a b => b.attemptNumber ≤ a.attemptNumber) =
        (t.db.attemptsOf i.id).insertionSort fun a b => b.attemptNumber ≤ a.attemptNumber := by
      refine insertionSort_eq_of_perm ?_ ?_ ?_ ?_
      · refine Table.filter_perm fun a => ?_
        simp only [decide_eq_true_eq]
        exact and_congr_left fun hp => h.attempt a (hp ▸ howns)
      · exact fun a b => Nat.le_total _ _
      · exact fun _ _ _ hab hbc => Nat.le_trans hbc hab
      · intro a ha b hb hab hba
        obtain ⟨ha, hai⟩ := Database.mem_attemptsOf.mp ha
        obtain ⟨hb, hbi⟩ := Database.mem_attemptsOf.mp hb
        exact Database.attempt_eq_of_number ha hb (hai.trans hbi.symm) (Nat.le_antisymm hba hab)
    simp only [hsorted]

/-! ## Metrics -/

/-- The join on the owner's invocations. -/
theorem joined_iff {db : Database} {id : UUID} :
    ((db.invocations.get id).any fun i => i.ownerId = ownerId) = true ↔ OwnsInvocation db ownerId id := by
  rw [Option.any_eq_true]
  simp only [decide_eq_true_eq]
  constructor
  · rintro ⟨i, hi, ho⟩
    exact ⟨i, Table.get_mem hi, Table.get_key hi, ho⟩
  · rintro ⟨i, hi, rfl, ho⟩
    exact ⟨i, Table.get_of_mem hi, ho⟩

theorem ownerInvocations (h : Agree s t ownerId) :
    (s.db.ownerInvocations ownerId).Perm (t.db.ownerInvocations ownerId) := by
  refine Table.filter_perm fun i => ?_
  simp only [decide_eq_true_eq]
  exact and_congr_left fun hp => h.invocation i hp

theorem ownerAttempts (h : Agree s t ownerId) :
    (s.db.ownerAttempts ownerId).Perm (t.db.ownerAttempts ownerId) := by
  refine Table.filter_perm fun a => ?_
  rw [joined_iff, joined_iff, ← h.ownsInvocation]
  exact and_congr_left fun hp => h.attempt a hp

theorem ownerDispatches (h : Agree s t ownerId) :
    (s.db.ownerDispatches ownerId).Perm (t.db.ownerDispatches ownerId) := by
  refine Table.filter_perm fun d => ?_
  rw [joined_iff, joined_iff, ← h.ownsInvocation]
  exact and_congr_left fun hp => h.dispatch d hp

theorem getInvocationSummary (h : Agree s t ownerId) (now : Time) :
    s.db.getInvocationSummary ownerId now = t.db.getInvocationSummary ownerId now := by
  have hcounts : s.db.getInvocationStatusCounts ownerId = t.db.getInvocationStatusCounts ownerId :=
    funext fun status => h.ownerInvocations.countP_eq _
  have hexecution : s.db.getExecutionDurations ownerId = t.db.getExecutionDurations ownerId :=
    insertionSort_le_eq_of_perm ((h.ownerAttempts.filter _).filterMap _)
  have hlatency : s.db.getInvocationDurations ownerId = t.db.getInvocationDurations ownerId :=
    insertionSort_le_eq_of_perm (h.ownerInvocations.filterMap _)
  have hretries : s.db.getRetryCount ownerId = t.db.getRetryCount ownerId :=
    (h.ownerInvocations.map _).sum_eq
  have hrecent : s.db.getRecentThroughput ownerId now = t.db.getRecentThroughput ownerId now :=
    h.ownerInvocations.countP_eq _
  unfold Database.getInvocationSummary
  rw [hcounts, hexecution, hlatency, hretries, hrecent]

theorem getQueueSummary (h : Agree s t ownerId) (now : Time) :
    s.db.getQueueSummary ownerId now = t.db.getQueueSummary ownerId now := by
  have hwaiting := h.ownerInvocations.filter fun i => i.status = .queued ∨ i.status = .retrying
  have hpending := h.ownerDispatches.filter fun d => d.publishedAt = none
  unfold Database.getQueueSummary
  simp only [hwaiting.length_eq, hpending.length_eq, min?_eq_of_perm (hwaiting.map (·.queuedAt)),
    min?_eq_of_perm (hpending.map (·.createdAt))]

end Agree

end Serverless.Tenancy
