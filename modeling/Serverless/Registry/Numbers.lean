import Serverless.Library.Queries
import Serverless.Registry.System

/-!
# Version numbers

A number that a request has read is at most one above the highest number of its
function, however many rows are added before the request comes to its insert. The
unique constraint rejects the numbers that are taken, so an insert that goes through
takes the next one.
-/
namespace Serverless.Registry

open Serverless.Library Serverless.Model

/-- The number that a request has read and not yet used. -/
def Stage.number : Stage → Option Nat
  | .store number | .lookUpAgain number _ | .insert _ number _ => some number
  | .lookUp | .readNumber _ | .returned _ | .raised _ => none

/-- The number and the package that a request is going to insert. -/
def Stage.stored : Stage → Option (Nat × StoredPackage)
  | .lookUpAgain number package | .insert _ number package => some (number, package)
  | .lookUp | .readNumber _ | .store _ | .returned _ | .raised _ => none

/-- The function that a request has found and not yet used. -/
def Stage.functionId : Stage → Option UUID
  | .readNumber functionId | .insert functionId _ _ => some functionId
  | .lookUp | .store _ | .lookUpAgain _ _ | .returned _ | .raised _ => none

/-- What a request has read is still true, or true enough. -/
structure Tracked (db : Database) (r : VersionRequest) : Prop where
  function : ∀ id, r.stage.functionId = some id →
    ∃ f ∈ db.functions, f.id = id ∧ f.ownerId = r.ownerId ∧ f.name = r.functionName
  number : ∀ k, r.stage.number = some k →
    ∃ f ∈ db.functions, f.ownerId = r.ownerId ∧ f.name = r.functionName ∧
      1 ≤ k ∧ k ≤ db.getNextVersionNumber f.id

/-- The numbers of every function are those below the next one. -/
def Gapfree (db : Database) : Prop :=
  ∀ functionId n, (∃ v ∈ db.versions, v.functionId = functionId ∧ v.versionNumber = n) ↔
    1 ≤ n ∧ n < db.getNextVersionNumber functionId

structure Inv (s : State) : Prop where
  names : ∀ f ∈ s.db.functions, matchesFunctionName f.name = true ∧ f.deletedAt = none
  tracked : ∀ r ∈ s.requests, Tracked s.db r
  numbers : Gapfree s.db

theorem Tracked.mono {db db' : Database} {r : VersionRequest} (h : Tracked db r)
    (hf : ∀ f ∈ db.functions, f ∈ db'.functions)
    (hn : ∀ id, db.getNextVersionNumber id ≤ db'.getNextVersionNumber id) : Tracked db' r := by
  constructor
  · intro id hid
    obtain ⟨f, hm, hrest⟩ := h.function id hid
    exact ⟨f, hf f hm, hrest⟩
  · intro k hk
    obtain ⟨f, hm, ho, hname, h1, hle⟩ := h.number k hk
    exact ⟨f, hf f hm, ho, hname, h1, hle.trans (hn f.id)⟩

theorem next_pos (db : Database) (functionId : UUID) : 1 ≤ db.getNextVersionNumber functionId :=
  Nat.le_add_left 1 _

/-- Every number that has been read and every function that has been found is tracked. -/
theorem Tracked.advance {x : LocalPackageStorageService} {db db' : Database}
    {files files' : Files (List UInt8)} {r : VersionRequest} {versionId : UUID} {stage : Stage}
    (h : Tracked db r) (ha : Advanced x db files r versionId stage db' files') :
    Tracked db { r with stage := stage } := by
  cases ha with
  | missing | refused | conflict | inserted =>
    constructor <;> intro y hy <;> cases hy
  | found function hst hf =>
    obtain ⟨hm, ho, hn, -⟩ := Database.getFunctionByName_some hf
    constructor
    · intro id hid
      cases hid
      exact ⟨function, hm, rfl, ho, hn⟩
    · intro k hk
      cases hk
  | numbered functionId payload hst hb =>
    have hfound := h.function functionId (by rw [hst]; rfl)
    constructor
    · intro id hid
      cases hid
      exact hfound
    · intro k hk
      cases hk
      obtain ⟨f, hm, rfl, ho, hn⟩ := hfound
      exact ⟨f, hm, ho, hn, next_pos db f.id, le_rfl⟩
  | reserved functionId settings contents hst hb =>
    have hfound := h.function functionId (by rw [hst]; rfl)
    constructor
    · intro id hid
      cases hid
    · intro k hk
      cases hk
      obtain ⟨f, hm, rfl, ho, hn⟩ := hfound
      exact ⟨f, hm, ho, hn, next_pos db f.id, le_rfl⟩
  | stored number settings contents hst hb =>
    constructor
    · intro id hid
      cases hid
    · intro k hk
      cases hk
      exact h.number number (by rw [hst]; rfl)
  | foundAgain function number package hst hf =>
    obtain ⟨hm, ho, hn, -⟩ := Database.getFunctionByName_some hf
    constructor
    · intro id hid
      cases hid
      exact ⟨function, hm, rfl, ho, hn⟩
    · intro k hk
      cases hk
      exact h.number number (by rw [hst]; rfl)

/-- A row with a number that is at most the next one, and that the table takes, has the next. -/
theorem Gapfree.insert {db db' : Database} {v : FunctionVersion} (h : Gapfree db)
    (hv : db.versions.insert v = .ok db'.versions) (hpos : 1 ≤ v.versionNumber)
    (hle : v.versionNumber ≤ db.getNextVersionNumber v.functionId) : Gapfree db' := by
  have hnext : v.versionNumber = db.getNextVersionNumber v.functionId := by
    by_contra hne
    obtain ⟨w, hw, hwf, hwn⟩ := (h v.functionId v.versionNumber).mpr ⟨hpos, by omega⟩
    refine Table.insert_no_collision hv hw rfl ?_
    rw [FunctionVersion.functionNumber, hwf, hwn]
  intro functionId n
  have hold := h functionId n
  rw [Database.getNextVersionNumber_insert hv]
  by_cases hf : v.functionId = functionId
  · subst hf
    rw [if_pos rfl, hnext, max_eq_right (Nat.le_succ _)]
    constructor
    · rintro ⟨w, hw, hwf, rfl⟩
      rcases (Table.mem_insert hv).mp hw with hw | rfl
      · have hb := hold.mp ⟨w, hw, hwf, rfl⟩
        omega
      · omega
    · rintro ⟨h1, hlt⟩
      rcases Nat.lt_or_ge n (db.getNextVersionNumber v.functionId) with hn | hn
      · obtain ⟨w, hw, hrest⟩ := hold.mpr ⟨h1, hn⟩
        exact ⟨w, (Table.mem_insert hv).mpr (Or.inl hw), hrest⟩
      · exact ⟨v, (Table.mem_insert hv).mpr (Or.inr rfl), rfl, by omega⟩
  · rw [if_neg hf, ← hold]
    constructor
    · rintro ⟨w, hw, hwf, hwn⟩
      rcases (Table.mem_insert hv).mp hw with hw | rfl
      · exact ⟨w, hw, hwf, hwn⟩
      · exact absurd hwf hf
    · rintro ⟨w, hw, hrest⟩
      exact ⟨w, (Table.mem_insert hv).mpr (Or.inl hw), hrest⟩

namespace Inv

theorem init {s : State} (h : init s) : Inv s := by
  obtain ⟨hl, hr⟩ := h
  have hdb : s.db = .fresh .empty .empty := by rw [State.db, hl]; rfl
  refine ⟨?_, ?_, ?_⟩
  · rw [hdb]
    exact fun f hf => absurd hf (Table.not_mem_empty f)
  · rw [hr]
    exact fun r hm => absurd hm List.not_mem_nil
  · rw [hdb]
    intro functionId n
    constructor
    · rintro ⟨v, hv, -⟩
      exact absurd hv (Table.not_mem_empty v)
    · rintro ⟨h1, hlt⟩
      change n < 1 at hlt
      omega

/-- A step of a request other than its insert leaves the database alone. -/
theorem advanced_db {x : LocalPackageStorageService} {db db' : Database}
    {files files' : Files (List UInt8)} {r : VersionRequest} {versionId : UUID} {stage : Stage}
    (h : Advanced x db files r versionId stage db' files')
    (hst : stage ≠ .returned versionId) : db' = db := by
  cases h with
  | inserted => exact absurd rfl hst
  | missing | found | numbered | reserved | refused | stored | foundAgain | conflict => rfl

/-- The insert of a request, with the function it is for. -/
theorem inserted {s : State} (h : Inv s) {r : VersionRequest} (hr : r ∈ s.requests)
    {functionId : UUID} {number : Nat} {package : StoredPackage}
    (hst : r.stage = .insert functionId number package) :
    ∃ f ∈ s.db.functions, f.id = functionId ∧ f.ownerId = r.ownerId ∧ f.name = r.functionName ∧
      1 ≤ number ∧ number ≤ s.db.getNextVersionNumber functionId := by
  obtain ⟨f, hf, hid, ho, hn⟩ := (h.tracked r hr).function functionId (by rw [hst]; rfl)
  obtain ⟨g, hg, hgo, hgn, h1, hle⟩ := (h.tracked r hr).number number (by rw [hst]; rfl)
  have hgf : g = f := Database.function_eq_of_name hg hf (hgo.trans ho.symm) (hgn.trans hn.symm)
  exact ⟨f, hf, hid, ho, hn, h1, by rw [← hid, ← hgf]; exact hle⟩

theorem step {x : LocalPackageStorageService} {s t : State} {e : Event} (h : Inv s)
    (hs : Registry.step x s e = some t) : Inv t := by
  cases step_effect hs with
  | named ownerId name functionId db hname hv _ hf =>
    have hnext : ∀ id, db.getNextVersionNumber id = s.db.getNextVersionNumber id := by
      intro id
      rw [Database.getNextVersionNumber, Database.versionsOf, hv]
      rfl
    have hkeep : ∀ f ∈ s.db.functions, f ∈ db.functions := by
      intro f hm
      rcases hf with hf | hf
      · exact hf ▸ hm
      · exact (Table.mem_insert hf).mpr (Or.inl hm)
    refine ⟨fun f hm => ?_, fun r hr => ?_, fun functionId n => ?_⟩
    · rcases hf with hf | hf
      · exact h.names f (hf ▸ hm)
      · rcases (Table.mem_insert hf).mp hm with hm | rfl
        · exact h.names f hm
        · exact ⟨hname, rfl⟩
    · exact (h.tracked r hr).mono hkeep fun id => (hnext id).ge
    · show (∃ v ∈ db.versions, _) ↔ 1 ≤ n ∧ n < db.getNextVersionNumber functionId
      rw [hv, hnext]
      exact h.numbers functionId n
  | accepted ownerId functionName body hb =>
    refine ⟨h.names, fun r hr => ?_, h.numbers⟩
    rcases List.mem_append.mp hr with hr | hr
    · exact h.tracked r hr
    · rw [List.mem_singleton.mp hr]
      constructor <;> intro y hy <;> cases hy
  | advanced n versionId r stage db files hr ha =>
    have hrm : r ∈ s.requests := List.mem_of_getElem? hr
    -- first what the step has read, in the old database
    have htracked : ∀ q ∈ s.requests.set n { r with stage := stage }, Tracked s.db q := by
      intro q hq
      rcases List.mem_or_eq_of_mem_set hq with hq | rfl
      · exact h.tracked q hq
      · exact (h.tracked r hrm).advance ha
    by_cases hret : stage = .returned versionId
    · cases ha with
      | inserted functionId number package db' hst hi =>
        obtain ⟨versions, hv, rfl⟩ := Database.insertFunctionVersion_ok hi
        obtain ⟨f, -, -, -, -, h1, hle⟩ := h.inserted hrm hst
        refine ⟨h.names, fun q hq => ?_, h.numbers.insert hv h1 hle⟩
        refine (htracked q hq).mono (fun _ hm => hm) fun id => ?_
        have hnext : ({ s.db with versions := versions } : Database).getNextVersionNumber id = _ :=
          Database.getNextVersionNumber_insert hv id
        refine le_of_le_of_eq ?_ hnext.symm
        split
        · exact le_max_left _ _
        · exact le_rfl
      | missing | found | numbered | reserved | refused | stored | foundAgain | conflict =>
        cases hret
    · rw [advanced_db ha hret]
      exact ⟨h.names, htracked, h.numbers⟩
  | other call ledger hl hf hv =>
    have hnext : ∀ id, ledger.db.getNextVersionNumber id = s.db.getNextVersionNumber id := by
      intro id
      rw [Database.getNextVersionNumber, Database.versionsOf, hv]
      rfl
    refine ⟨fun f hm => h.names f (hf ▸ hm), fun r hr => ?_, fun functionId n => ?_⟩
    · exact (h.tracked r hr).mono (fun f hm => hf ▸ hm) fun id => (hnext id).ge
    · show (∃ v ∈ ledger.db.versions, _) ↔ 1 ≤ n ∧ n < ledger.db.getNextVersionNumber functionId
      rw [hv, hnext]
      exact h.numbers functionId n

end Inv

theorem inv_reachable {x : LocalPackageStorageService} {ok : State → Event → Prop} {s : State}
    (h : ReachableBy (step x) ok init s) : Inv s :=
  h.invariant (fun _ hi => .init hi) fun _ hinv _ hs => hinv.step hs

namespace Gapfree

variable {db : Database}

theorem numbers_perm (h : Gapfree db) (functionId : UUID) :
    ((db.versionsOf functionId).map (·.versionNumber)).Perm
      (List.range' 1 (db.getNextVersionNumber functionId - 1)) := by
  have hrows : (db.versionsOf functionId).Nodup :=
    (List.Nodup.of_map _ db.versions.primary).filter _
  have hnodup : ((db.versionsOf functionId).map (·.versionNumber)).Nodup := by
    refine hrows.map_on fun v hv w hw hn => ?_
    obtain ⟨hv, hvf⟩ := Database.mem_versionsOf.mp hv
    obtain ⟨hw, hwf⟩ := Database.mem_versionsOf.mp hw
    exact Database.version_eq_of_number hv hw (hvf.trans hwf.symm) hn
  refine (List.perm_ext_iff_of_nodup hnodup List.nodup_range').mpr fun n => ?_
  have hn := h functionId n
  simp only [List.mem_map, Database.mem_versionsOf, List.mem_range'_1, and_assoc]
  constructor
  · intro hx
    have hb := hn.mp hx
    omega
  · intro hx
    exact hn.mpr (by omega)

theorem length_versionsOf (h : Gapfree db) (functionId : UUID) :
    (db.versionsOf functionId).length = db.getNextVersionNumber functionId - 1 := by
  have hl := (h.numbers_perm functionId).length_eq
  rwa [List.length_map, List.length_range'] at hl

/-- The version with a number, if the number is in range. -/
theorem exists_iff (h : Gapfree db) (functionId : UUID) (n : Nat) :
    (∃ v ∈ db.versionsOf functionId, v.versionNumber = n) ↔
      1 ≤ n ∧ n ≤ (db.versionsOf functionId).length := by
  have hn := h functionId n
  have hpos := next_pos db functionId
  simp only [Database.mem_versionsOf, and_assoc]
  rw [hn, h.length_versionsOf]
  omega

end Gapfree

section Resolve

variable {db : Database} {f : Function}

/-- The function is found; what is left is the select on its versions. -/
theorem resolve_none (hf : f ∈ db.functions) (hd : f.deletedAt = none) :
    db.resolveFunctionVersion f.ownerId f.name none =
      ((db.versionsOf f.id).insertionSort fun v w => w.versionNumber ≤ v.versionNumber).head?.elim
        (.error (.functionVersionNotFound f.name none)) .ok := by
  have hfind := Database.getFunctionByName_eq hf hd
  unfold Database.getFunctionByName at hfind
  unfold Database.resolveFunctionVersion
  rw [hfind]
  dsimp only [Database.versionsOf]
  split <;> rename_i hx <;> rw [hx] <;> rfl

theorem resolve_some (hf : f ∈ db.functions) (hd : f.deletedAt = none) (n : Nat) :
    db.resolveFunctionVersion f.ownerId f.name (some n) =
      ((db.versionsOf f.id).find? fun v => v.versionNumber = n).elim
        (.error (.functionVersionNotFound f.name (some n))) .ok := by
  have hfind := Database.getFunctionByName_eq hf hd
  unfold Database.getFunctionByName at hfind
  unfold Database.resolveFunctionVersion
  rw [hfind]
  dsimp only [Database.versionsOf]
  split <;> rename_i hx <;> rw [hx] <;> rfl

/-- Without a number the highest one is resolved. -/
theorem resolve_latest (h : Gapfree db) (hf : f ∈ db.functions) (hd : f.deletedAt = none) :
    (db.versionsOf f.id = [] → db.resolveFunctionVersion f.ownerId f.name none =
      .error (.functionVersionNotFound f.name none)) ∧
    (db.versionsOf f.id ≠ [] → ∃ v ∈ db.versionsOf f.id,
      v.versionNumber = (db.versionsOf f.id).length ∧
      db.resolveFunctionVersion f.ownerId f.name none = .ok v) := by
  rw [resolve_none hf hd]
  constructor
  · intro hnil
    rw [hnil]
    rfl
  · intro hne
    cases hh : ((db.versionsOf f.id).insertionSort
        fun v w => w.versionNumber ≤ v.versionNumber).head? with
    | none =>
      have hnil := List.head?_eq_none_iff.mp hh
      have hlen := congrArg List.length hnil
      rw [List.length_insertionSort] at hlen
      exact absurd (List.length_eq_zero_iff.mp hlen) hne
    | some v =>
      obtain ⟨hmem, hgreatest⟩ := head?_insertionSort FunctionVersion.versionNumber hh
      refine ⟨v, hmem, ?_, rfl⟩
      -- the last number is taken by some version, and none is above it
      have hlen : 1 ≤ (db.versionsOf f.id).length := List.length_pos_iff.mpr hne
      obtain ⟨w, hw, hwn⟩ := (h.exists_iff f.id _).mpr ⟨hlen, le_rfl⟩
      have hle := hgreatest w hw
      have hge := ((h.exists_iff f.id v.versionNumber).mp ⟨v, hmem, rfl⟩).2
      omega

theorem resolve_number (h : Gapfree db) (hf : f ∈ db.functions) (hd : f.deletedAt = none)
    (n : Nat) :
    (1 ≤ n ∧ n ≤ (db.versionsOf f.id).length → ∃ v ∈ db.versionsOf f.id, v.versionNumber = n ∧
      db.resolveFunctionVersion f.ownerId f.name (some n) = .ok v) ∧
    (¬ (1 ≤ n ∧ n ≤ (db.versionsOf f.id).length) →
      db.resolveFunctionVersion f.ownerId f.name (some n) =
        .error (.functionVersionNotFound f.name (some n))) := by
  rw [resolve_some hf hd]
  have hiff := h.exists_iff f.id n
  cases hfind : (db.versionsOf f.id).find? fun v => v.versionNumber = n with
  | none =>
    have hnone : ¬ ∃ v ∈ db.versionsOf f.id, v.versionNumber = n := by
      rintro ⟨v, hv, hn⟩
      have hx := List.find?_eq_none.mp hfind v hv
      simp [hn] at hx
    exact ⟨fun hr => absurd (hiff.mpr hr) hnone, fun _ => rfl⟩
  | some v =>
    have hv := List.mem_of_find?_eq_some hfind
    have hn : v.versionNumber = n := by simpa using List.find?_some hfind
    exact ⟨fun _ => ⟨v, hv, hn, rfl⟩, fun hr => absurd (hiff.mp ⟨v, hv, hn⟩) hr⟩

end Resolve

/-- **Version numbers are gap-free and the latest is the newest.** -/
theorem versions_gapfree {x : LocalPackageStorageService} {s : State}
    (h : Reachable (step x) init s) :
    (∀ functionId, ((s.db.versionsOf functionId).map (·.versionNumber)).Perm
      (List.range' 1 (s.db.versionsOf functionId).length)) ∧
    (∀ n versionId t r, step x s (.advance n versionId) = some t → t.requests[n]? = some r →
      (∀ id, r.stage ≠ .returned id) → t.db = s.db) ∧
    ∀ f ∈ s.db.functions,
      (s.db.versionsOf f.id ≠ [] → ∃ v ∈ s.db.versionsOf f.id,
        v.versionNumber = (s.db.versionsOf f.id).length ∧
        s.db.resolveFunctionVersion f.ownerId f.name none = .ok v) ∧
      (s.db.versionsOf f.id = [] → s.db.resolveFunctionVersion f.ownerId f.name none =
        .error (.functionVersionNotFound f.name none)) ∧
      ∀ n,
        (1 ≤ n ∧ n ≤ (s.db.versionsOf f.id).length → ∃ v ∈ s.db.versionsOf f.id,
          v.versionNumber = n ∧
          s.db.resolveFunctionVersion f.ownerId f.name (some n) = .ok v) ∧
        (¬ (1 ≤ n ∧ n ≤ (s.db.versionsOf f.id).length) →
          s.db.resolveFunctionVersion f.ownerId f.name (some n) =
            .error (.functionVersionNotFound f.name (some n))) := by
  have hinv := inv_reachable h
  refine ⟨fun functionId => ?_, fun n versionId t r hs hr hst => ?_, fun f hf => ?_⟩
  · rw [hinv.numbers.length_versionsOf]
    exact hinv.numbers.numbers_perm functionId
  · cases step_effect hs with
    | advanced n versionId q stage db files hq ha =>
      have hlt : n < s.requests.length := (List.getElem?_eq_some_iff.mp hq).1
      rw [List.getElem?_set_self hlt] at hr
      cases hr
      exact Inv.advanced_db ha (hst versionId)
  · have hd := (hinv.names f hf).2
    obtain ⟨hnone, hsome⟩ := resolve_latest hinv.numbers hf hd
    exact ⟨hsome, hnone, resolve_number hinv.numbers hf hd⟩

/-- Two requests read the same number and one is rejected; a third takes the next. -/
def racingRun : List Event :=
  let body : VersionBody := .json { package := ⟨"storage/packages/hello.zip", "0123456789abcdef"⟩ }
  [.createFunction 7 "hello" 1, .accept 7 "hello" body, .accept 7 "hello" body,
    .advance 0 0, .advance 1 0, .advance 0 0, .advance 1 0, .advance 0 2, .advance 1 3,
    .accept 7 "hello" body, .advance 2 0, .advance 2 0, .advance 2 4]

theorem versions_gapfree_racing : ∃ s, Reachable (step demoStorage) init s ∧
    s.requests.length = 3 ∧
    ((s.db.versionsOf 1).map (·.versionNumber)).Perm [1, 2] ∧
    ∃ v ∈ s.db.versionsOf 1, v.versionNumber = 2 ∧
      s.db.resolveFunctionVersion 7 "hello" none = .ok v := by
  obtain ⟨s, hs, hp⟩ := reachable_of_replay (step demoStorage) racingRun
    (fun s => decide (s.requests.length = 3) && decide ((s.db.versionsOf 1).length = 2) &&
      s.db.functions.rows.any fun f => f.id = 1 ∧ f.ownerId = 7 ∧ f.name = "hello")
    init_empty (by decide +kernel)
  simp only [Bool.and_eq_true, List.any_eq_true, decide_eq_true_eq] at hp
  obtain ⟨⟨hrequests, hlen⟩, f, hf, hid, ho, hn⟩ := hp
  obtain ⟨hperm, -, hresolve⟩ := versions_gapfree hs
  have hperm := hperm 1
  obtain ⟨hlatest, -, -⟩ := hresolve f hf
  rw [hid, ho, hn, hlen] at hlatest
  rw [hlen] at hperm
  refine ⟨s, hs, hrequests, hperm, hlatest fun hnil => ?_⟩
  rw [hnil] at hlen
  cases hlen

end Serverless.Registry
