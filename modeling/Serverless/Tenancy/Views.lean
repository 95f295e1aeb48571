import Mathlib.Data.Set.Insert
import Serverless.Library.Queries
import Serverless.Model.Services

/-!
# What belongs to an owner

The part of the tables that an owner's calls are about: the user row, the functions with their
versions and the invocations with their attempts and dispatches. Inserting a row adds it to the
view of the owner it belongs to and leaves every other view alone, because references never
dangle and new identifiers are not in use.
-/
namespace Serverless.Tenancy

open Serverless.Library Serverless.Model

/-- What the foreign keys of the schema guarantee about the rows that belong to others. -/
structure References (db : Database) : Prop where
  version : ∀ v ∈ db.versions, ∃ f ∈ db.functions, f.id = v.functionId
  attempt : ∀ a ∈ db.attempts, ∃ i ∈ db.invocations, i.id = a.invocationId
  dispatch : ∀ d ∈ db.dispatches, ∃ i ∈ db.invocations, i.id = d.invocationId

def OwnsFunction (db : Database) (ownerId functionId : UUID) : Prop :=
  ∃ f ∈ db.functions, f.id = functionId ∧ f.ownerId = ownerId

def OwnsInvocation (db : Database) (ownerId invocationId : UUID) : Prop :=
  ∃ i ∈ db.invocations, i.id = invocationId ∧ i.ownerId = ownerId

/-- The rows of an owner, in no order. -/
@[ext]
structure OwnerView where
  user : Option User
  functions : Set FunctionRead
  versions : Set FunctionVersionRead
  invocations : Set Invocation
  attempts : Set InvocationAttempt
  dispatches : Set InvocationDispatch

/-- The view of an owner. -/
def view (s : Tables) (ownerId : UUID) : OwnerView where
  user := s.users.get ownerId
  functions := {r | r.function ∈ s.db.functions ∧ r.function.ownerId = ownerId ∧
    r.createdAt = s.functionCreatedAt r.function.id}
  versions := {r | r.version ∈ s.db.versions ∧ OwnsFunction s.db ownerId r.version.functionId ∧
    r.createdAt = s.versionCreatedAt r.version.id}
  invocations := {i | i ∈ s.db.invocations ∧ i.ownerId = ownerId}
  attempts := {a | a ∈ s.db.attempts ∧ OwnsInvocation s.db ownerId a.invocationId}
  dispatches := {d | d ∈ s.db.dispatches ∧ OwnsInvocation s.db ownerId d.invocationId}

namespace OwnerView

/-- Rows are added if they are the owner's. -/
def addFunction (v : OwnerView) (own : Prop) (r : FunctionRead) : OwnerView :=
  { v with functions := v.functions ∪ {x | own ∧ x = r} }

def addVersion (v : OwnerView) (own : Prop) (r : FunctionVersionRead) : OwnerView :=
  { v with versions := v.versions ∪ {x | own ∧ x = r} }

def addInvocation (v : OwnerView) (own : Prop) (i : Invocation) (d : InvocationDispatch) : OwnerView :=
  { v with
    invocations := v.invocations ∪ {x | own ∧ x = i}
    dispatches := v.dispatches ∪ {x | own ∧ x = d} }

theorem addFunction_of_not {v : OwnerView} {own : Prop} (h : ¬ own) (r : FunctionRead) :
    v.addFunction own r = v := by
  simp [addFunction, h]

theorem addVersion_of_not {v : OwnerView} {own : Prop} (h : ¬ own) (r : FunctionVersionRead) :
    v.addVersion own r = v := by
  simp [addVersion, h]

theorem addInvocation_of_not {v : OwnerView} {own : Prop} (h : ¬ own) (i : Invocation)
    (d : InvocationDispatch) : v.addInvocation own i d = v := by
  simp [addInvocation, h]

end OwnerView

variable {s t : Tables} {ownerId : UUID}

/-- The identifier of a function determines its owner. -/
theorem OwnsFunction.owner {db : Database} {functionId : UUID} (h : OwnsFunction db ownerId functionId)
    {f : Function} (hf : f ∈ db.functions) (hid : f.id = functionId) : f.ownerId = ownerId := by
  obtain ⟨g, hg, hgid, hown⟩ := h
  rw [← Table.eq_of_key hg hf (hgid.trans hid.symm)]
  exact hown

theorem OwnsInvocation.owner {db : Database} {invocationId : UUID}
    (h : OwnsInvocation db ownerId invocationId) {i : Invocation} (hi : i ∈ db.invocations)
    (hid : i.id = invocationId) : i.ownerId = ownerId := by
  obtain ⟨j, hj, hjid, hown⟩ := h
  rw [← Table.eq_of_key hj hi (hjid.trans hid.symm)]
  exact hown

/-! ## Inserting rows -/

variable (ownerId)

theorem view_insertFunction (href : References s.db) {f : Function}
    {functions : Table Function.id Function.ownerName} (h : s.db.functions.insert f = .ok functions)
    {users : Table User.id User.uniqueEmail} (huser : users.get ownerId = s.users.get ownerId) (now : Time) :
    view { s with
        db := { s.db with functions := functions }
        users := users
        functionCreatedAt := Function.update s.functionCreatedAt f.id now } ownerId =
      (view s ownerId).addFunction (f.ownerId = ownerId) ⟨f, now⟩ := by
  ext r
  · exact iff_of_eq (congrArg (r ∈ ·) huser)
  · have hcolumn := Table.insert_column h s.functionCreatedAt now r.function r.createdAt
    constructor
    · rintro ⟨hm, ho, hc⟩
      rcases hcolumn.mp ⟨hm, hc⟩ with ⟨hm, hc⟩ | ⟨hf, hc⟩
      · exact .inl ⟨hm, ho, hc⟩
      · exact .inr ⟨hf ▸ ho, congrArg₂ FunctionRead.mk hf hc⟩
    · rintro (⟨hm, ho, hc⟩ | ⟨ho, rfl⟩)
      · obtain ⟨hm, hc⟩ := hcolumn.mpr (.inl ⟨hm, hc⟩)
        exact ⟨hm, ho, hc⟩
      · obtain ⟨hm, hc⟩ := hcolumn.mpr (.inr ⟨rfl, rfl⟩)
        exact ⟨hm, ho, hc⟩
  · have howns := fun hm : r.version ∈ s.db.versions =>
      Table.insert_referenced h (href.version _ hm) (·.ownerId = ownerId)
    exact ⟨fun ⟨hm, ho, hc⟩ => ⟨hm, (howns hm).mp ho, hc⟩, fun ⟨hm, ho, hc⟩ => ⟨hm, (howns hm).mpr ho, hc⟩⟩
  · rfl
  · rfl
  · rfl

theorem view_insertVersion {v : FunctionVersion}
    {versions : Table FunctionVersion.id FunctionVersion.functionNumber}
    (h : s.db.versions.insert v = .ok versions) (now : Time) :
    view { s with
        db := { s.db with versions := versions }
        versionCreatedAt := Function.update s.versionCreatedAt v.id now } ownerId =
      (view s ownerId).addVersion (OwnsFunction s.db ownerId v.functionId) ⟨v, now⟩ := by
  ext r
  · rfl
  · rfl
  · have hcolumn := Table.insert_column h s.versionCreatedAt now r.version r.createdAt
    constructor
    · rintro ⟨hm, ho, hc⟩
      rcases hcolumn.mp ⟨hm, hc⟩ with ⟨hm, hc⟩ | ⟨hv, hc⟩
      · exact .inl ⟨hm, ho, hc⟩
      · exact .inr ⟨hv ▸ ho, congrArg₂ FunctionVersionRead.mk hv hc⟩
    · rintro (⟨hm, ho, hc⟩ | ⟨ho, rfl⟩)
      · obtain ⟨hm, hc⟩ := hcolumn.mpr (.inl ⟨hm, hc⟩)
        exact ⟨hm, ho, hc⟩
      · obtain ⟨hm, hc⟩ := hcolumn.mpr (.inr ⟨rfl, rfl⟩)
        exact ⟨hm, ho, hc⟩
  · rfl
  · rfl
  · rfl

/-- An invocation is inserted with a dispatch of its own. -/
theorem view_insertInvocation (href : References s.db) {i : Invocation} {d : InvocationDispatch}
    {invocations : Table Invocation.id Invocation.ownerKey}
    {dispatches : Table InvocationDispatch.id InvocationDispatch.invocationNumber}
    (hi : s.db.invocations.insert i = .ok invocations) (hd : s.db.dispatches.insert d = .ok dispatches)
    (hid : d.invocationId = i.id) :
    view { s with db := { s.db with invocations := invocations, dispatches := dispatches } } ownerId =
      (view s ownerId).addInvocation (i.ownerId = ownerId) i d := by
  have hnew : OwnsInvocation { s.db with invocations := invocations, dispatches := dispatches } ownerId
      d.invocationId ↔ i.ownerId = ownerId := by
    have hmem : i ∈ invocations := (Table.mem_insert hi).mpr (.inr rfl)
    exact ⟨fun ho => ho.owner hmem hid.symm, fun ho => ⟨i, hmem, hid.symm, ho⟩⟩
  ext r
  · rfl
  · rfl
  · rfl
  · constructor
    · rintro ⟨hm, ho⟩
      rcases (Table.mem_insert hi).mp hm with hm | rfl
      · exact .inl ⟨hm, ho⟩
      · exact .inr ⟨ho, rfl⟩
    · rintro (⟨hm, ho⟩ | ⟨ho, rfl⟩)
      · exact ⟨(Table.mem_insert hi).mpr (.inl hm), ho⟩
      · exact ⟨(Table.mem_insert hi).mpr (.inr rfl), ho⟩
  · have howns := fun hm : r ∈ s.db.attempts =>
      Table.insert_referenced hi (href.attempt _ hm) (·.ownerId = ownerId)
    exact ⟨fun ⟨hm, ho⟩ => ⟨hm, (howns hm).mp ho⟩, fun ⟨hm, ho⟩ => ⟨hm, (howns hm).mpr ho⟩⟩
  · have howns := fun hm : r ∈ s.db.dispatches =>
      Table.insert_referenced hi (href.dispatch _ hm) (·.ownerId = ownerId)
    constructor
    · rintro ⟨hm, ho⟩
      rcases (Table.mem_insert hd).mp hm with hm | rfl
      · exact .inl ⟨hm, (howns hm).mp ho⟩
      · exact .inr ⟨hnew.mp ho, rfl⟩
    · rintro (⟨hm, ho⟩ | ⟨ho, rfl⟩)
      · exact ⟨(Table.mem_insert hd).mpr (.inl hm), (howns hm).mpr ho⟩
      · exact ⟨(Table.mem_insert hd).mpr (.inr rfl), hnew.mpr ho⟩

end Serverless.Tenancy
