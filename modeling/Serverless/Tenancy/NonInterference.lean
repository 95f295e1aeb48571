import Mathlib.Data.String.Basic
import Serverless.Tenancy.Reads

/-!
# Owners do not interfere

A call writes rows of the owner it is made for and nothing else, so that it is invisible in the view
of every other owner; and what it answers and writes depends on the view of its owner only. Requests
of others can therefore be taken out of a run without any effect on the answers to an owner.
-/
namespace Serverless.Tenancy

open Serverless.Library Serverless.Model

/-! ## New identifiers -/

/-- An identifier that a call draws for a row it may insert. -/
inductive NewRow where
  | function (id : UUID)
  | version (id : UUID)
  | invocation (id : UUID)
  | dispatch (id : UUID)
  deriving DecidableEq

/-- The identifier is not in use yet. -/
def NewRow.Unused (s : Tables) : NewRow → Prop
  | .function id => s.db.functions.get id = none
  | .version id => s.db.versions.get id = none
  | .invocation id => s.db.invocations.get id = none
  | .dispatch id => s.db.dispatches.get id = none

def newRows : ServiceCall → List NewRow
  | .createFunction _ functionId _ => [.function functionId]
  | .createFunctionVersion _ _ _ _ versionId _ => [.version versionId]
  | .createInvocation _ _ _ _ invocationId dispatchId _ => [.invocation invocationId, .dispatch dispatchId]
  | .listFunctions => []
  | .listFunctionVersions _ => []
  | .getNextFunctionVersionNumber _ => []
  | .getInvocation _ => []
  | .getLatestLogsRef _ => []
  | .getInvocationSummary _ => []
  | .getQueueSummary _ => []

/-! ## What a call writes -/

/-- A call for an owner leaves the tables as they are, or inserts rows of that owner. -/
inductive Writes (s : Tables) (ownerId : UUID) : List NewRow → Tables → Prop where
  | nothing (ids : List NewRow) : Writes s ownerId ids s
  | function {f : Function} {functions : Table Function.id Function.ownerName}
      {users : Table User.id User.uniqueEmail} (hinsert : s.db.functions.insert f = .ok functions)
      (howner : f.ownerId = ownerId) (husers : s.ensureOwnerExists ownerId = .ok users) (now : Time) :
      Writes s ownerId [.function f.id]
        { s with
          db := { s.db with functions := functions }
          users := users
          functionCreatedAt := Function.update s.functionCreatedAt f.id now }
  | version {v : FunctionVersion} {versions : Table FunctionVersion.id FunctionVersion.functionNumber}
      (hinsert : s.db.versions.insert v = .ok versions)
      (howner : OwnsFunction s.db ownerId v.functionId) (now : Time) :
      Writes s ownerId [.version v.id]
        { s with
          db := { s.db with versions := versions }
          versionCreatedAt := Function.update s.versionCreatedAt v.id now }
  | invocation {i : Invocation} {d : InvocationDispatch}
      {invocations : Table Invocation.id Invocation.ownerKey}
      {dispatches : Table InvocationDispatch.id InvocationDispatch.invocationNumber}
      (hinvocation : s.db.invocations.insert i = .ok invocations)
      (hdispatch : s.db.dispatches.insert d = .ok dispatches)
      (howner : i.ownerId = ownerId) (hid : d.invocationId = i.id) :
      Writes s ownerId [.invocation i.id, .dispatch d.id]
        { s with db := { s.db with invocations := invocations, dispatches := dispatches } }

theorem serve_writes (collation : LinearOrder String) (s : Tables) (ownerId : UUID) (call : ServiceCall) :
    Writes s ownerId (newRows call) (s.serve collation ownerId call).1 := by
  cases call with
  | createFunction name functionId now =>
    show Writes s ownerId [.function functionId] (s.createFunction ownerId name functionId now).1
    unfold Tables.createFunction Database.createFunction
    cases husers : s.ensureOwnerExists ownerId with
    | error violation => exact .nothing _
    | ok users =>
      cases hname : s.db.getFunctionByName ownerId name with
      | some f => exact .nothing _
      | none =>
        dsimp only
        cases hinsert : s.db.functions.insert ⟨functionId, ownerId, name, none⟩ with
        | error violation => exact .nothing _
        | ok functions => exact .function hinsert rfl husers now
  | createFunctionVersion functionName settings package versionNumber versionId now =>
    show Writes s ownerId [.version versionId]
      (s.createFunctionVersion ownerId functionName settings package versionNumber versionId now).1
    unfold Tables.createFunctionVersion
    cases hname : s.db.getFunctionByName ownerId functionName with
    | none => exact .nothing _
    | some f =>
      dsimp only
      split
      · exact .nothing _
      · rename_i db hdb
        obtain ⟨versions, hinsert, rfl⟩ := Database.insertFunctionVersion_ok hdb
        exact .version hinsert (Agree.owns_of_name hname) now
  | createInvocation functionName payload idempotencyKey versionNumber invocationId dispatchId now =>
    let request : CreateRequest := ⟨ownerId, functionName, payload, idempotencyKey, versionNumber⟩
    show Writes s ownerId [.invocation invocationId, .dispatch dispatchId]
      { s with db := (createInvocation s.db request invocationId dispatchId now).1 }
    rcases createInvocation_db s.db request invocationId dispatchId now with
      hdb | ⟨version, db, hinsert, hdb⟩
    · rw [hdb]
      exact .nothing _
    · rw [hdb]
      obtain ⟨invocations, dispatches, hi, hd, rfl⟩ := insertInvocation_ok hinsert
      exact .invocation hi hd rfl rfl
  | listFunctions => exact .nothing _
  | listFunctionVersions functionName => exact .nothing _
  | getNextFunctionVersionNumber functionName => exact .nothing _
  | getInvocation invocationId => exact .nothing _
  | getLatestLogsRef invocationId => exact .nothing _
  | getInvocationSummary now => exact .nothing _
  | getQueueSummary now => exact .nothing _

namespace Writes

variable {s s' : Tables} {ownerId : UUID} {ids : List NewRow}

theorem ensured_of_ne {users : Table User.id User.uniqueEmail}
    (h : s.ensureOwnerExists ownerId = .ok users) {other : UUID} (hne : ownerId ≠ other) :
    users.get other = s.users.get other := by
  unfold Tables.ensureOwnerExists at h
  split at h
  · cases h
    rfl
  · exact Table.get_insert_of_ne h hne

/-- An owner with a row is not inserted. -/
theorem ensured {u : User} (hu : s.users.get ownerId = some u) :
    s.ensureOwnerExists ownerId = .ok s.users := by
  unfold Tables.ensureOwnerExists
  rw [hu]

theorem references (h : Writes s ownerId ids s') (href : References s.db) : References s'.db := by
  cases h with
  | nothing => exact href
  | function hinsert howner husers now =>
    refine ⟨fun v hv => ?_, href.attempt, href.dispatch⟩
    obtain ⟨f, hf, hid⟩ := href.version v hv
    exact ⟨f, (Table.mem_insert hinsert).mpr (.inl hf), hid⟩
  | version hinsert howner now =>
    refine ⟨fun v hv => ?_, href.attempt, href.dispatch⟩
    rcases (Table.mem_insert hinsert).mp hv with hv | rfl
    · exact href.version v hv
    · obtain ⟨f, hf, hid, -⟩ := howner
      exact ⟨f, hf, hid⟩
  | invocation hinvocation hdispatch howner hid =>
    have hkept := fun i hi => (Table.mem_insert hinvocation).mpr (.inl (b := i = _) hi)
    refine ⟨href.version, fun a ha => ?_, fun d hd => ?_⟩
    · obtain ⟨i, hi, hai⟩ := href.attempt a ha
      exact ⟨i, hkept i hi, hai⟩
    · rcases (Table.mem_insert hdispatch).mp hd with hd | rfl
      · obtain ⟨i, hi, hdi⟩ := href.dispatch d hd
        exact ⟨i, hkept i hi, hdi⟩
      · exact ⟨_, (Table.mem_insert hinvocation).mpr (.inr rfl), hid.symm⟩

/-- Nothing changes for another owner. -/
theorem view_of_ne (h : Writes s ownerId ids s') (href : References s.db) {other : UUID}
    (hne : ownerId ≠ other) : view s' other = view s other := by
  cases h with
  | nothing => rfl
  | function hinsert howner husers now =>
    rw [view_insertFunction other href hinsert (ensured_of_ne husers hne) now]
    exact OwnerView.addFunction_of_not (howner ▸ hne) _
  | version hinsert howner now =>
    rw [view_insertVersion other hinsert now]
    refine OwnerView.addVersion_of_not (fun hother => ?_) _
    obtain ⟨f, hf, hid, ho⟩ := howner
    exact hne (ho.symm.trans (hother.owner hf hid))
  | invocation hinvocation hdispatch howner hid =>
    rw [view_insertInvocation other href hinvocation hdispatch hid]
    exact OwnerView.addInvocation_of_not (howner ▸ hne) _ _

theorem user (h : Writes s ownerId ids s') {other : UUID} {u : User} (hu : s.users.get other = some u) :
    s'.users.get other = some u := by
  cases h with
  | nothing => exact hu
  | function hinsert howner husers now =>
    by_cases hne : ownerId = other
    · subst hne
      rw [ensured hu] at husers
      cases husers
      exact hu
    · exact (ensured_of_ne husers hne).trans hu
  | version => exact hu
  | invocation => exact hu

/-- Only the identifiers that the call has drawn get used. -/
theorem unused (h : Writes s ownerId ids s') {x : NewRow} (hx : x.Unused s) (hnot : x ∉ ids) :
    x.Unused s' := by
  cases h with
  | nothing => exact hx
  | @function f functions users hinsert howner husers now =>
    cases x with
    | function id =>
      have hne : f.id ≠ id := fun heq => hnot (by simp [heq])
      exact (Table.get_insert_of_ne hinsert hne).trans hx
    | version id => exact hx
    | invocation id => exact hx
    | dispatch id => exact hx
  | @version v versions hinsert howner now =>
    cases x with
    | version id =>
      have hne : v.id ≠ id := fun heq => hnot (by simp [heq])
      exact (Table.get_insert_of_ne hinsert hne).trans hx
    | function id => exact hx
    | invocation id => exact hx
    | dispatch id => exact hx
  | @invocation i d invocations dispatches hinvocation hdispatch howner hid =>
    cases x with
    | invocation id =>
      have hne : i.id ≠ id := fun heq => hnot (by simp [heq])
      exact (Table.get_insert_of_ne hinvocation hne).trans hx
    | dispatch id =>
      have hne : d.id ≠ id := fun heq => hnot (by simp [heq])
      exact (Table.get_insert_of_ne hdispatch hne).trans hx
    | function id => exact hx
    | version id => exact hx

end Writes

/-! ## What a call answers -/

/-- Two outcomes of a call are the same for an owner. -/
def Alike (ownerId : UUID) (x y : Tables × Response) : Prop :=
  x.2 = y.2 ∧ view x.1 ownerId = view y.1 ownerId

section Calls

variable {s t : Tables} {ownerId : UUID}

theorem createFunction_alike (hview : view s ownerId = view t ownerId) (hs : References s.db)
    (ht : References t.db) {user : User} (huser : s.users.get ownerId = some user) (name : String)
    {functionId : UUID} (hfs : s.db.functions.get functionId = none)
    (hft : t.db.functions.get functionId = none) (now : Time) :
    Alike ownerId (s.createFunction ownerId name functionId now)
      (t.createFunction ownerId name functionId now) := by
  have h := Agree.of_view hview
  have huser' : t.users.get ownerId = some user := h.user.symm.trans huser
  unfold Tables.createFunction Database.createFunction
  rw [Writes.ensured huser, Writes.ensured huser', ← h.getFunctionByName name]
  cases hname : s.db.getFunctionByName ownerId name with
  | some f => exact ⟨rfl, hview⟩
  | none =>
    -- the index on names concerns functions of the owner
    let function : Function := ⟨functionId, ownerId, name, none⟩
    have hindex : ∀ x, function.ownerName = some x →
        ((∃ f ∈ s.db.functions, f.ownerName = some x) ↔ ∃ f ∈ t.db.functions, f.ownerName = some x) := by
      intro x hx
      have howner : ∀ f : Function, f.ownerName = some x → f.ownerId = ownerId := by
        intro f hf
        have heq := hf.trans hx.symm
        simp only [Function.ownerName, Option.some.injEq, Prod.mk.injEq] at heq
        exact heq.1
      exact exists_congr fun f => and_congr_left fun hf => h.function f (howner f hf)
    rcases Table.insert_both hfs hft hindex with ⟨hi, hi'⟩ | ⟨functions, functions', hi, hi'⟩
    · simp only [function] at hi hi'
      simp only [hi, hi']
      exact ⟨rfl, hview⟩
    · have hadded := view_insertFunction ownerId hs hi rfl now
      have hadded' := view_insertFunction ownerId ht hi' rfl now
      simp only [function] at hi hi'
      simp only [hi, hi']
      rw [hview] at hadded
      exact ⟨rfl, hadded.trans hadded'.symm⟩

theorem createFunctionVersion_alike (hview : view s ownerId = view t ownerId) (functionName : String)
    (settings : VersionSettings) (package : StoredPackage) (versionNumber : Option Nat)
    {versionId : UUID} (hfs : s.db.versions.get versionId = none)
    (hft : t.db.versions.get versionId = none) (now : Time) :
    Alike ownerId
      (s.createFunctionVersion ownerId functionName settings package versionNumber versionId now)
      (t.createFunctionVersion ownerId functionName settings package versionNumber versionId now) := by
  have h := Agree.of_view hview
  unfold Tables.createFunctionVersion Database.insertFunctionVersion
  rw [← h.getFunctionByName functionName]
  cases hname : s.db.getFunctionByName ownerId functionName with
  | none => exact ⟨rfl, hview⟩
  | some f =>
    have howns := Agree.owns_of_name hname
    simp only [← h.getNextVersionNumber howns]
    generalize (if versionNumber.getD 0 = 0 then s.db.getNextVersionNumber f.id
      else versionNumber.getD 0) = number
    have hindex : ∀ x, (newVersion f.id number settings package versionId).functionNumber = some x →
        ((∃ v ∈ s.db.versions, v.functionNumber = some x) ↔
          ∃ v ∈ t.db.versions, v.functionNumber = some x) := by
      intro x hx
      have hfunction : ∀ v : FunctionVersion, v.functionNumber = some x → v.functionId = f.id := by
        intro v hv
        have heq := hv.trans hx.symm
        simp only [FunctionVersion.functionNumber, Option.some.injEq, Prod.mk.injEq] at heq
        exact heq.1
      exact exists_congr fun v => and_congr_left fun hv => h.version v (hfunction v hv ▸ howns)
    rcases Table.insert_both (r := newVersion f.id number settings package versionId) hfs hft hindex with
      ⟨hi, hi'⟩ | ⟨versions, versions', hi, hi'⟩
    · simp only [hi, hi', Except.map]
      exact ⟨rfl, hview⟩
    · simp only [hi, hi', Except.map]
      have hadded := view_insertVersion ownerId hi now
      have hadded' := view_insertVersion ownerId hi' now
      have hsame : OwnsFunction s.db ownerId
          (newVersion f.id number settings package versionId).functionId = OwnsFunction t.db ownerId
            (newVersion f.id number settings package versionId).functionId :=
        propext (h.ownsFunction f.id)
      rw [hview, hsame] at hadded
      exact ⟨rfl, hadded.trans hadded'.symm⟩

/-- No dispatch refers to an invocation that does not exist, so that the first one fits. -/
theorem firstDispatch_inserted (hs : References s.db) {invocationId dispatchId : UUID}
    (hi : s.db.invocations.get invocationId = none) (hd : s.db.dispatches.get dispatchId = none)
    (now : Time) :
    ∃ dispatches, s.db.dispatches.insert (firstDispatch invocationId dispatchId now) = .ok dispatches := by
  refine Table.insert_ok hd fun x hx d hdm hdx => ?_
  obtain ⟨i, him, hid⟩ := hs.dispatch d hdm
  have heq := hdx.trans hx.symm
  simp only [InvocationDispatch.invocationNumber, Option.some.injEq, Prod.mk.injEq] at heq
  exact Table.get_eq_none.mp hi i him (hid.trans heq.1)

theorem ownerKey_owner {i : Invocation} {x : UUID × String} (h : i.ownerKey = some x) : i.ownerId = x.1 := by
  obtain ⟨key, -, hkey⟩ := Option.map_eq_some_iff.mp h
  exact congrArg Prod.fst hkey

theorem createInvocation_alike (hview : view s ownerId = view t ownerId) (hs : References s.db)
    (ht : References t.db) (request : CreateRequest) (howner : request.ownerId = ownerId)
    {invocationId dispatchId : UUID} (his : s.db.invocations.get invocationId = none)
    (hit : t.db.invocations.get invocationId = none) (hds : s.db.dispatches.get dispatchId = none)
    (hdt : t.db.dispatches.get dispatchId = none) (now : Time) :
    (createInvocation s.db request invocationId dispatchId now).2 =
        (createInvocation t.db request invocationId dispatchId now).2 ∧
      view { s with db := (createInvocation s.db request invocationId dispatchId now).1 } ownerId =
        view { t with db := (createInvocation t.db request invocationId dispatchId now).1 } ownerId := by
  have h := Agree.of_view hview
  unfold createInvocation
  rw [← h.existing howner]
  cases hexisting : request.existing s.db with
  | some i => exact ⟨rfl, hview⟩
  | none =>
    have hresolve := h.resolveFunctionVersion request.functionName request.versionNumber
    rw [howner, ← hresolve]
    cases hversion : s.db.resolveFunctionVersion ownerId request.functionName request.versionNumber with
    | error e => exact ⟨rfl, hview⟩
    | ok version =>
      have hindex : ∀ x, (newInvocation request version invocationId now).ownerKey = some x →
          ((∃ i ∈ s.db.invocations, i.ownerKey = some x) ↔ ∃ i ∈ t.db.invocations, i.ownerKey = some x) := by
        intro x hx
        have hown : ∀ i : Invocation, i.ownerKey = some x → i.ownerId = ownerId := by
          intro i hi
          exact (ownerKey_owner hi).trans ((ownerKey_owner hx).symm.trans howner)
        exact exists_congr fun i => and_congr_left fun hi => h.invocation i (hown i hi)
      obtain ⟨dispatches, hd⟩ := firstDispatch_inserted hs his hds now
      obtain ⟨dispatches', hd'⟩ := firstDispatch_inserted ht hit hdt now
      rcases Table.insert_both (r := newInvocation request version invocationId now) his hit hindex with
        ⟨hi, hi'⟩ | ⟨invocations, invocations', hi, hi'⟩
      · simp only [insertInvocation, hi, hi', bind, Except.bind]
        exact ⟨trivial, hview⟩
      · simp only [insertInvocation, hi, hi', hd, hd', bind, Except.bind, pure, Except.pure]
        have hadded := view_insertInvocation ownerId hs hi hd rfl
        have hadded' := view_insertInvocation ownerId ht hi' hd' rfl
        rw [hview] at hadded
        exact ⟨trivial, hadded.trans hadded'.symm⟩

theorem serve_alike (collation : LinearOrder String) (hview : view s ownerId = view t ownerId)
    (hs : References s.db) (ht : References t.db) {user : User} (huser : s.users.get ownerId = some user)
    (call : ServiceCall) (hfs : ∀ x ∈ newRows call, x.Unused s) (hft : ∀ x ∈ newRows call, x.Unused t) :
    Alike ownerId (s.serve collation ownerId call) (t.serve collation ownerId call) := by
  have h := Agree.of_view hview
  cases call with
  | createFunction name functionId now =>
    have hmem : NewRow.function functionId ∈ newRows (.createFunction name functionId now) :=
      List.mem_singleton_self _
    exact createFunction_alike hview hs ht huser name (hfs _ hmem) (hft _ hmem) now
  | listFunctions =>
    exact ⟨congrArg (fun rows => Except.ok (Answer.functions rows)) (h.listFunctions collation), hview⟩
  | createFunctionVersion functionName settings package versionNumber versionId now =>
    have hmem : NewRow.version versionId ∈
        newRows (.createFunctionVersion functionName settings package versionNumber versionId now) :=
      List.mem_singleton_self _
    exact createFunctionVersion_alike hview functionName settings package versionNumber (hfs _ hmem)
      (hft _ hmem) now
  | listFunctionVersions functionName => exact ⟨h.listFunctionVersions functionName, hview⟩
  | getNextFunctionVersionNumber functionName =>
    exact ⟨h.getNextFunctionVersionNumber functionName, hview⟩
  | createInvocation functionName payload idempotencyKey versionNumber invocationId dispatchId now =>
    let request : CreateRequest := ⟨ownerId, functionName, payload, idempotencyKey, versionNumber⟩
    have hi : NewRow.invocation invocationId ∈ newRows (.createInvocation functionName payload
        idempotencyKey versionNumber invocationId dispatchId now) := List.mem_cons_self
    have hd : NewRow.dispatch dispatchId ∈ newRows (.createInvocation functionName payload
        idempotencyKey versionNumber invocationId dispatchId now) :=
      List.mem_cons_of_mem _ (List.mem_singleton_self _)
    obtain ⟨hanswer, hviews⟩ := createInvocation_alike hview hs ht request rfl (hfs _ hi)
      (hft _ hi) (hfs _ hd) (hft _ hd) now
    exact ⟨congrArg (fun r => (r.map Answer.created).mapError ServiceError.create) hanswer, hviews⟩
  | getInvocation invocationId =>
    exact ⟨congrArg (fun r => (r.map Answer.invocation).mapError ServiceError.get)
      (h.getInvocation invocationId), hview⟩
  | getLatestLogsRef invocationId =>
    exact ⟨congrArg (fun r => (r.map Answer.logsRef).mapError ServiceError.get)
      (h.getLatestLogsRef invocationId), hview⟩
  | getInvocationSummary now =>
    exact ⟨congrArg (fun m => Except.ok (Answer.summary m)) (h.getInvocationSummary now), hview⟩
  | getQueueSummary now =>
    exact ⟨congrArg (fun m => Except.ok (Answer.queue m)) (h.getQueueSummary now), hview⟩

end Calls

/-! ## Runs -/

/-- Tables whose foreign keys hold. -/
structure Store where
  tables : Tables
  references : References tables.db

namespace Store

/-- A call for an owner. -/
def serve (collation : LinearOrder String) (s : Store) (ownerId : UUID) (call : ServiceCall) :
    Store × Response :=
  (⟨(s.tables.serve collation ownerId call).1,
    (serve_writes collation s.tables ownerId call).references s.references⟩,
    (s.tables.serve collation ownerId call).2)

/-- Requests one after another, each answered to the owner it is made for. -/
def serveAll (collation : LinearOrder String) (s : Store) : List (UUID × ServiceCall) → List (UUID × Response)
  | [] => []
  | (ownerId, call) :: requests =>
    let (s', response) := s.serve collation ownerId call
    (ownerId, response) :: s'.serveAll collation requests

/-- The identifiers that a list of requests draws. -/
def drawn (requests : List (UUID × ServiceCall)) : List NewRow := requests.flatMap fun r => newRows r.2

variable {collation : LinearOrder String} {ownerId : UUID}

theorem serveAll_cons (s : Store) (other : UUID) (call : ServiceCall) (requests : List (UUID × ServiceCall)) :
    s.serveAll collation ((other, call) :: requests) =
      (other, (s.serve collation other call).2) ::
        (s.serve collation other call).1.serveAll collation requests :=
  rfl

theorem drawn_rest {s : Store} {other : UUID} {call : ServiceCall} {requests : List (UUID × ServiceCall)}
    (hnodup : (drawn ((other, call) :: requests)).Nodup)
    (hunused : ∀ x ∈ drawn ((other, call) :: requests), x.Unused s.tables) :
    ∀ x ∈ drawn requests, x.Unused (s.serve collation other call).1.tables := by
  intro x hx
  unfold drawn at hnodup hunused
  rw [List.flatMap_cons] at hnodup hunused
  have hnot : x ∉ newRows call := fun hmem => (List.nodup_append.mp hnodup).2.2 x hmem x hx rfl
  exact (serve_writes collation s.tables other call).unused
    (hunused x (List.mem_append_right _ hx)) hnot

/-- Taking the requests of others out of a run, in stores that look the same to the owner. -/
theorem serveAll_filter {requests : List (UUID × ServiceCall)} {s t : Store} {user : User}
    (hview : view s.tables ownerId = view t.tables ownerId)
    (huser : s.tables.users.get ownerId = some user) (hnodup : (drawn requests).Nodup)
    (hs : ∀ x ∈ drawn requests, x.Unused s.tables) (ht : ∀ x ∈ drawn requests, x.Unused t.tables) :
    (s.serveAll collation requests).filter (·.1 = ownerId) =
      t.serveAll collation (requests.filter (·.1 = ownerId)) := by
  induction requests generalizing s t with
  | nil => rfl
  | cons request requests ih =>
    obtain ⟨other, call⟩ := request
    have hrest : (drawn requests).Nodup := (List.nodup_append.mp hnodup).2.1
    have hwrites := serve_writes collation s.tables other call
    have hkept : (s.serve collation other call).1.tables.users.get ownerId = some user := hwrites.user huser
    have hs' : ∀ x ∈ drawn requests, x.Unused (s.serve collation other call).1.tables :=
      drawn_rest hnodup hs
    by_cases hother : other = ownerId
    · subst hother
      have hnew : ∀ x ∈ newRows call, x ∈ drawn ((other, call) :: requests) :=
        fun x hx => List.mem_append_left _ hx
      obtain ⟨hanswer, hviews⟩ := serve_alike collation hview s.references t.references huser call
        (fun x hx => hs x (hnew x hx)) fun x hx => ht x (hnew x hx)
      have htail := ih (s := (s.serve collation other call).1) (t := (t.serve collation other call).1)
        hviews hkept hrest hs' (drawn_rest hnodup ht)
      rw [List.filter_cons_of_pos (by simp), serveAll_cons, List.filter_cons_of_pos (by simp)]
      exact congrArg₂ (fun r rs => (other, r) :: rs) hanswer htail
    · -- the run without the request stays where it is
      have hviews := (hwrites.view_of_ne s.references hother).trans hview
      have htail := ih (s := (s.serve collation other call).1) (t := t) hviews hkept hrest hs'
        fun x hx => ht x (List.mem_append_right _ hx)
      rw [List.filter_cons_of_neg (by simpa using hother), serveAll_cons,
        List.filter_cons_of_neg (by simpa using hother)]
      exact htail

end Store

/-- The calls made for an owner neither see nor touch what belongs to others: stores that look the
same to an owner answer it alike and look the same afterwards, calls of others leave its view alone,
and their requests can be taken out of a run. -/
theorem owners_do_not_interfere (collation : LinearOrder String) (ownerId : UUID) :
    (∀ s t : Store, view s.tables ownerId = view t.tables ownerId → s.tables.users.get ownerId ≠ none →
      ∀ call : ServiceCall, (∀ x ∈ newRows call, x.Unused s.tables ∧ x.Unused t.tables) →
        (s.serve collation ownerId call).2 = (t.serve collation ownerId call).2 ∧
        view (s.serve collation ownerId call).1.tables ownerId =
          view (t.serve collation ownerId call).1.tables ownerId) ∧
    (∀ (s : Store) (other : UUID) (call : ServiceCall), other ≠ ownerId →
      view (s.serve collation other call).1.tables ownerId = view s.tables ownerId) ∧
    ∀ (s : Store) (requests : List (UUID × ServiceCall)), s.tables.users.get ownerId ≠ none →
      (Store.drawn requests).Nodup → (∀ x ∈ Store.drawn requests, x.Unused s.tables) →
        (s.serveAll collation requests).filter (·.1 = ownerId) =
          s.serveAll collation (requests.filter (·.1 = ownerId)) := by
  refine ⟨fun s t hview huser call hnew => ?_, fun s other call hne => ?_,
    fun s requests huser hnodup hunused => ?_⟩
  · obtain ⟨user, huser⟩ := Option.ne_none_iff_exists'.mp huser
    exact serve_alike collation hview s.references t.references huser call
      (fun x hx => (hnew x hx).1) fun x hx => (hnew x hx).2
  · exact (serve_writes collation s.tables other call).view_of_ne s.references hne
  · obtain ⟨user, huser⟩ := Option.ne_none_iff_exists'.mp huser
    exact Store.serveAll_filter rfl huser hnodup hunused hunused

/-- Two owners without any function. -/
def twoOwners : Store where
  tables :=
    { db := Database.fresh .empty .empty
      users :=
        { rows := [⟨7, "seven@example.local", "-"⟩, ⟨8, "eight@example.local", "-"⟩]
          primary := by decide
          unique := by decide }
      functionCreatedAt := fun _ => 0
      versionCreatedAt := fun _ => 0 }
  references := ⟨fun v hv => by simp [Database.fresh] at hv, fun a ha => by simp [Database.fresh] at ha,
    fun d hd => by simp [Database.fresh] at hd⟩

/-- Owner 8 takes a name and a version number before owner 7 uses them. -/
def sameNames : List (UUID × ServiceCall) :=
  [(8, .createFunction "hello" 1 10),
   (8, .createFunctionVersion "hello" {} ⟨"storage/packages/hello.zip", "0123456789abcdef"⟩ none 2 20),
   (7, .createFunction "hello" 3 30),
   (8, .createInvocation "hello" .null (some "once") none 4 5 40),
   (7, .createInvocation "hello" .null (some "once") none 6 9 50),
   (7, .getNextFunctionVersionNumber "hello")]

theorem owners_do_not_interfere_same_names :
    let collation : LinearOrder String := inferInstance
    let busy := (twoOwners.serve collation 8 (.createFunction "hello" 1 10)).1
    (busy.serve collation 7 (.createFunction "hello" 3 30)).2 =
        (twoOwners.serve collation 7 (.createFunction "hello" 3 30)).2 ∧
      (twoOwners.serveAll collation sameNames).filter (·.1 = 7) =
        twoOwners.serveAll collation (sameNames.filter (·.1 = 7)) ∧
      (twoOwners.serveAll collation sameNames).map (·.2.isOk) = [true, true, true, true, false, true] := by
  intro collation busy
  have h := owners_do_not_interfere collation 7
  have hother : view busy.tables 7 = view twoOwners.tables 7 := h.2.1 twoOwners 8 _ (by decide)
  have hunused : ∀ x : NewRow, x.Unused twoOwners.tables := fun x => by cases x <;> rfl
  have huser : twoOwners.tables.users.get 7 ≠ none := by decide
  refine ⟨(h.1 busy twoOwners hother ((congrArg OwnerView.user hother).trans_ne huser) _
      fun x hx => ⟨?_, hunused x⟩).1,
    h.2.2 twoOwners sameNames huser (by decide) fun x _ => hunused x, by decide +kernel⟩
  obtain rfl := List.mem_singleton.mp hx
  exact (serve_writes collation twoOwners.tables 8 _).unused (hunused _) (by decide)

end Serverless.Tenancy
