import Serverless.Model.PackagePaths
import Serverless.Registry.Numbers

/-!
# Uploaded packages

An upload writes its file between reading a number and inserting the row. As long as it
does so only when no version has the number and no other upload is about to insert it,
the file of every uploaded version holds what was uploaded for it. Nothing in the
program keeps two uploads of one function from doing otherwise.
-/
namespace Serverless.Registry

open Serverless.Library Serverless.Model

/-- The number under which the next step of a request writes a package. -/
def VersionRequest.writes (x : LocalPackageStorageService) (r : VersionRequest) : Option Nat :=
  match r.stage, r.body with
  | .store number, .upload settings contents =>
    match x.validatePackage contents settings.handler with
    | .ok _ => some number
    | .error _ => none
  | _, _ => none

/-- A package is written only while no version of the function has its number and no other upload
of the function holds a package with that number. -/
def WritesApart (x : LocalPackageStorageService) (s : State) : Event → Prop
  | .advance n _ => ∀ r ∈ s.requests[n]?, ∀ number ∈ r.writes x,
    (∀ f ∈ s.db.functions.rows, f.ownerId = r.ownerId → f.name = r.functionName →
      ∀ v ∈ s.db.versionsOf f.id, v.versionNumber ≠ number) ∧
    ∀ q ∈ s.requests, q.ownerId = r.ownerId → q.functionName = r.functionName →
      q.body.contents ≠ none → q.stage.stored.map Prod.fst ≠ some number
  | .createFunction _ _ _ | .accept _ _ _ | .other _ => True

instance (x : LocalPackageStorageService) (s : State) (e : Event) :
    Decidable (WritesApart x s e) :=
  match e with
  | .advance _ _ => inferInstanceAs (Decidable (∀ r ∈ _, ∀ number ∈ _, _ ∧ _))
  | .createFunction _ _ _ | .accept _ _ _ | .other _ => inferInstanceAs (Decidable True)

/-- The file that a version row points to, as the API reads it. -/
def packageOf (x : LocalPackageStorageService) (s : State) (v : FunctionVersion) :
    Option (List UInt8) :=
  s.files.read (resolvePath x.workspaceRoot v.packageUri)

/-- Every version that an upload has created points to the bytes of that upload. -/
def UploadsIntact (x : LocalPackageStorageService) (s : State) : Prop :=
  ∀ r ∈ s.requests, ∀ contents versionId, r.body.contents = some contents →
    r.stage = .returned versionId →
    ∃ v ∈ s.db.versions, v.id = versionId ∧ packageOf x s v = some contents ∧
      v.packageHash = x.sha256 contents

/-- No version that an upload has created has another file than before. -/
def PackagesKept (x : LocalPackageStorageService) (s t : State) : Prop :=
  ∀ r ∈ s.requests, ∀ versionId, r.body.contents ≠ none → r.stage = .returned versionId →
    ∀ v ∈ s.db.versions, v.id = versionId → packageOf x t v = packageOf x s v

/-- The package of an upload, as the storage service records it. -/
def packageFor (x : LocalPackageStorageService) (ownerId : UUID) (functionName : String)
    (number : Nat) (contents : List UInt8) : StoredPackage :=
  ⟨storageRef x.workspaceRoot (x.packagePath ownerId functionName number), x.sha256 contents⟩

/-- An upload that has written, up to the insert. -/
def HoldsPackage (x : LocalPackageStorageService) (s : State) (r : VersionRequest) : Prop :=
  ∀ contents number package, r.body.contents = some contents →
    r.stage.stored = some (number, package) →
    package = packageFor x r.ownerId r.functionName number contents ∧
      s.files.read (x.packagePath r.ownerId r.functionName number) = some contents

/-- An upload that has created its version. -/
def OwnsPackage (x : LocalPackageStorageService) (s : State) (r : VersionRequest) : Prop :=
  ∀ contents versionId, r.body.contents = some contents → r.stage = .returned versionId →
    ∃ v ∈ s.db.versions, ∃ f ∈ s.db.functions, v.id = versionId ∧ v.functionId = f.id ∧
      f.ownerId = r.ownerId ∧ f.name = r.functionName ∧
      v.packageUri =
        storageRef x.workspaceRoot (x.packagePath r.ownerId r.functionName v.versionNumber) ∧
      v.packageHash = x.sha256 contents ∧
      s.files.read (x.packagePath r.ownerId r.functionName v.versionNumber) = some contents

structure Placed (x : LocalPackageStorageService) (s : State) : Prop where
  holds : ∀ r ∈ s.requests, HoldsPackage x s r
  owns : ∀ r ∈ s.requests, OwnsPackage x s r

variable {x : LocalPackageStorageService} {s t : State} {r : VersionRequest}

theorem HoldsPackage.frame (h : HoldsPackage x s r)
    (hfiles : ∀ number package, r.body.contents ≠ none →
      r.stage.stored = some (number, package) →
      t.files.read (x.packagePath r.ownerId r.functionName number) =
        s.files.read (x.packagePath r.ownerId r.functionName number)) : HoldsPackage x t r := by
  intro contents number package hc hst
  obtain ⟨hp, hread⟩ := h contents number package hc hst
  exact ⟨hp, (hfiles number package (by simp [hc]) hst).trans hread⟩

theorem OwnsPackage.frame (h : OwnsPackage x s r) (hv : ∀ v ∈ s.db.versions, v ∈ t.db.versions)
    (hf : ∀ f ∈ s.db.functions, f ∈ t.db.functions)
    (hfiles : ∀ v ∈ s.db.versions, ∀ f ∈ s.db.functions, v.functionId = f.id →
      f.ownerId = r.ownerId → f.name = r.functionName →
      t.files.read (x.packagePath r.ownerId r.functionName v.versionNumber) =
        s.files.read (x.packagePath r.ownerId r.functionName v.versionNumber)) :
    OwnsPackage x t r := by
  intro contents versionId hc hst
  obtain ⟨v, hvm, f, hfm, hid, hvf, ho, hn, huri, hhash, hread⟩ := h contents versionId hc hst
  exact ⟨v, hv v hvm, f, hf f hfm, hid, hvf, ho, hn, huri, hhash,
    (hfiles v hvm f hfm hvf ho hn).trans hread⟩

/-- A request that is neither between its write and its insert nor over. -/
theorem HoldsPackage.of_none (h : r.stage.stored = none) : HoldsPackage x s r := by
  intro contents number package _ hst
  rw [h] at hst
  cases hst

theorem OwnsPackage.of_ne (h : ∀ versionId, r.stage ≠ .returned versionId) :
    OwnsPackage x s r :=
  fun _ versionId _ hst => absurd hst (h versionId)

namespace Placed

theorem init (h : Registry.init s) : Placed x s := by
  obtain ⟨-, hr⟩ := h
  constructor
  · rw [hr]
    exact fun r hm => absurd hm List.not_mem_nil
  · rw [hr]
    exact fun r hm => absurd hm List.not_mem_nil

/-- Steps that leave the files and the requests alone. -/
theorem frame (h : Placed x s) (hr : t.requests = s.requests) (hfiles : t.files = s.files)
    (hv : ∀ v ∈ s.db.versions, v ∈ t.db.versions)
    (hf : ∀ f ∈ s.db.functions, f ∈ t.db.functions) : Placed x t := by
  constructor
  · intro r hm
    rw [hr] at hm
    exact (h.holds r hm).frame fun _ _ _ _ => by rw [hfiles]
  · intro r hm
    rw [hr] at hm
    exact (h.owns r hm).frame hv hf fun _ _ _ _ _ _ _ => by rw [hfiles]

/-- The name of a function that a request has found. -/
theorem validName (hinv : Inv s) (hr : r ∈ s.requests) {k : Nat} (hk : r.stage.number = some k) :
    matchesFunctionName r.functionName = true := by
  obtain ⟨f, hf, -, hn, -⟩ := (hinv.tracked r hr).number k hk
  exact hn ▸ (hinv.names f hf).1

/-- A write under a number that is taken by no version and no upload hits no other package. -/
theorem write_apart {n : Nat} {versionId : UUID} {number : Nat} (hinv : Inv s)
    (hok : WritesApart x s (.advance n versionId)) (hr : s.requests[n]? = some r)
    (hst : r.stage = .store number) (hw : r.writes x = some number) (contents : List UInt8) :
    (∀ q ∈ s.requests, ∀ k package, q.body.contents ≠ none →
      q.stage.stored = some (k, package) →
      (s.files.write (x.packagePath r.ownerId r.functionName number) contents).read
          (x.packagePath q.ownerId q.functionName k) =
        s.files.read (x.packagePath q.ownerId q.functionName k)) ∧
    ∀ v ∈ s.db.versions, ∀ f ∈ s.db.functions, v.functionId = f.id →
      (s.files.write (x.packagePath r.ownerId r.functionName number) contents).read
          (x.packagePath f.ownerId f.name v.versionNumber) =
        s.files.read (x.packagePath f.ownerId f.name v.versionNumber) := by
  have hrm : r ∈ s.requests := List.mem_of_getElem? hr
  have hname := validName hinv hrm (k := number) (by rw [hst]; rfl)
  obtain ⟨hversions, huploads⟩ := hok r hr number hw
  constructor
  · intro q hq k package hc hstored
    refine Files.read_write_other fun he => ?_
    have hqname : matchesFunctionName q.functionName = true := by
      refine validName hinv hq (k := k) ?_
      cases hqs : q.stage with
      | lookUpAgain | insert =>
        rw [hqs] at hstored
        cases hstored
        rfl
      | lookUp | readNumber | store | returned | raised =>
        rw [hqs] at hstored
        cases hstored
    obtain ⟨ho, hn, hk⟩ := LocalPackageStorageService.packagePath_injective hqname hname he
    refine huploads q hq ho hn hc ?_
    rw [hstored, ← hk]
    rfl
  · intro v hv f hf hvf
    refine Files.read_write_other fun he => ?_
    obtain ⟨ho, hn, hk⟩ :=
      LocalPackageStorageService.packagePath_injective (hinv.names f hf).1 hname he
    exact hversions f hf ho hn v (Database.mem_versionsOf.mpr ⟨hv, hvf⟩) hk

/-- The state after a step of request `n`. -/
def after (s : State) (n : Nat) (r : VersionRequest) (stage : Stage) (db : Database)
    (files : Files (List UInt8)) : State :=
  { s.withDb db with
    files := files
    requests := s.requests.set n { r with stage := stage } }

theorem writes_eq {number : Nat} {settings : VersionSettings} {contents : List UInt8}
    (hst : r.stage = .store number) (hb : r.body = .upload settings contents)
    (hv : x.validatePackage contents settings.handler = .ok ()) : r.writes x = some number := by
  simp [VersionRequest.writes, hst, hb, hv]

/-- A step of one request does not disturb what the others have placed. -/
theorem advanced_others {n : Nat} {versionId : UUID} {stage : Stage} {db : Database}
    {files : Files (List UInt8)} (h : Placed x s) (hinv : Inv s)
    (hok : WritesApart x s (.advance n versionId)) (hr : s.requests[n]? = some r)
    (ha : Advanced x s.db s.files r versionId stage db files) {q : VersionRequest}
    (hq : q ∈ s.requests) :
    HoldsPackage x (after s n r stage db files) q ∧
      OwnsPackage x (after s n r stage db files) q := by
  cases ha with
  | missing | found | numbered | reserved | refused | foundAgain | conflict =>
    exact ⟨(h.holds q hq).frame fun _ _ _ _ => rfl,
      (h.owns q hq).frame (fun _ hm => hm) (fun _ hm => hm) fun _ _ _ _ _ _ _ => rfl⟩
  | stored number settings contents hst hb hv =>
    obtain ⟨huploads, hversions⟩ :=
      write_apart hinv hok hr hst (writes_eq hst hb hv) contents
    refine ⟨(h.holds q hq).frame (huploads q hq),
      (h.owns q hq).frame (fun _ hm => hm) (fun _ hm => hm) fun v hv f hf hvf ho hn => ?_⟩
    rw [← ho, ← hn]
    exact hversions v hv f hf hvf
  | inserted functionId number package db' hst hi =>
    obtain ⟨versions, hv, rfl⟩ := Database.insertFunctionVersion_ok hi
    exact ⟨(h.holds q hq).frame fun _ _ _ _ => rfl,
      (h.owns q hq).frame (fun _ hm => (Table.mem_insert hv).mpr (Or.inl hm)) (fun _ hm => hm)
        fun _ _ _ _ _ _ _ => rfl⟩

/-- What the request itself has placed after its step. -/
theorem advanced_self {n : Nat} {versionId : UUID} {stage : Stage} {db : Database}
    {files : Files (List UInt8)} (h : Placed x s) (hinv : Inv s)
    (hr : s.requests[n]? = some r)
    (ha : Advanced x s.db s.files r versionId stage db files) :
    HoldsPackage x (after s n r stage db files) { r with stage := stage } ∧
      OwnsPackage x (after s n r stage db files) { r with stage := stage } := by
  have hrm : r ∈ s.requests := List.mem_of_getElem? hr
  cases ha with
  | missing | found | reserved | refused | conflict =>
    exact ⟨.of_none rfl, .of_ne fun _ hx => by cases hx⟩
  | numbered functionId payload hst hb =>
    refine ⟨fun contents _ _ hc _ => ?_, .of_ne fun _ hx => by cases hx⟩
    change r.body.contents = some contents at hc
    rw [hb] at hc
    cases hc
  | stored number settings contents hst hb hv =>
    refine ⟨fun contents' k package hc hstored => ?_, .of_ne fun _ hx => by cases hx⟩
    change r.body.contents = some contents' at hc
    rw [hb] at hc
    cases hc
    cases hstored
    exact ⟨rfl, Files.read_write_same rfl⟩
  | foundAgain function number package hst hf =>
    refine ⟨fun contents k package' hc hstored => ?_, .of_ne fun _ hx => by cases hx⟩
    cases hstored
    exact h.holds r hrm contents number package hc (by rw [hst]; rfl)
  | inserted functionId number package db' hst hi =>
    refine ⟨.of_none rfl, fun contents id hc hret => ?_⟩
    cases hret
    obtain ⟨versions, hv, rfl⟩ := Database.insertFunctionVersion_ok hi
    obtain ⟨f, hf, hid, ho, hn, -, -⟩ := hinv.inserted hrm hst
    obtain ⟨rfl, hread⟩ := h.holds r hrm contents number package hc (by rw [hst]; rfl)
    refine ⟨_, (Table.mem_insert hv).mpr (Or.inr rfl), f, hf, rfl, hid.symm, ho, hn, ?_, ?_, hread⟩
    · dsimp only [newVersion, packageFor]
    · dsimp only [newVersion, packageFor]

theorem step {e : Event} (h : Placed x s) (hinv : Inv s) (hok : WritesApart x s e)
    (hs : Registry.step x s e = some t) : Placed x t := by
  cases step_effect hs with
  | named ownerId name functionId db hname hv _ hf =>
    refine h.frame rfl rfl (fun v hm => ?_) fun f hm => ?_
    · show v ∈ db.versions
      exact hv ▸ hm
    · show f ∈ db.functions
      rcases hf with hf | hf
      · exact hf ▸ hm
      · exact (Table.mem_insert hf).mpr (Or.inl hm)
  | accepted ownerId functionName body hb =>
    constructor
    · intro q hq
      rcases List.mem_append.mp hq with hq | hq
      · exact (h.holds q hq).frame fun _ _ _ _ => rfl
      · rw [List.mem_singleton.mp hq]
        exact .of_none rfl
    · intro q hq
      rcases List.mem_append.mp hq with hq | hq
      · exact (h.owns q hq).frame (fun _ hm => hm) (fun _ hm => hm) fun _ _ _ _ _ _ _ => rfl
      · rw [List.mem_singleton.mp hq]
        exact .of_ne fun _ hx => by cases hx
  | advanced n versionId r stage db files hr ha =>
    have hself := h.advanced_self hinv hr ha
    have hothers := fun {q} => h.advanced_others hinv hok hr ha (q := q)
    constructor
    · intro q hq
      rcases List.mem_or_eq_of_mem_set hq with hq | rfl
      · exact (hothers hq).1
      · exact hself.1
    · intro q hq
      rcases List.mem_or_eq_of_mem_set hq with hq | rfl
      · exact (hothers hq).2
      · exact hself.2
  | other call ledger hl hf hv =>
    refine h.frame rfl rfl (fun v hm => ?_) fun f hm => ?_
    · show v ∈ ledger.db.versions
      exact hv ▸ hm
    · show f ∈ ledger.db.functions
      exact hf ▸ hm

/-- What is placed is what the rows point to. -/
theorem intact (h : Placed x s) (hinv : Inv s) : UploadsIntact x s := by
  intro r hr contents versionId hc hst
  obtain ⟨v, hv, f, hf, hid, -, ho, hn, huri, hhash, hread⟩ :=
    h.owns r hr contents versionId hc hst
  refine ⟨v, hv, hid, ?_, hhash⟩
  have hname : matchesFunctionName r.functionName = true := hn ▸ (hinv.names f hf).1
  unfold packageOf Files.read
  rw [huri, resolvePath_storageRef _
    (LocalPackageStorageService.packagePath_absolute hname v.versionNumber)]
  exact hread

end Placed

theorem placed_reachable (h : ReachableBy (step x) (WritesApart x) init s) : Placed x s :=
  h.invariant (fun _ hi => .init hi) fun hr hp hok hs => hp.step (inv_reachable hr) hok hs

/-- A request that has returned is over. -/
theorem returned_mem {e : Event} (hs : step x s e = some t) (hr : r ∈ s.requests)
    {versionId : UUID} (hst : r.stage = .returned versionId) : r ∈ t.requests := by
  cases step_effect hs with
  | named | other => exact hr
  | accepted => exact List.mem_append_left _ hr
  | advanced n id q stage db files hq ha =>
    have hne : q ≠ r := by
      rintro rfl
      cases ha with
      | missing hst' =>
        rcases hst' with hst' | ⟨number, package, hst'⟩
        all_goals
          rw [hst] at hst'
          cases hst'
      | found _ hst' | numbered _ _ hst' | reserved _ _ _ hst' | refused _ _ hst'
      | stored _ _ _ hst' | foundAgain _ _ _ hst' | conflict _ _ _ hst' | inserted _ _ _ _ hst' =>
        rw [hst] at hst'
        cases hst'
    obtain ⟨m, hm⟩ := List.mem_iff_getElem?.mp hr
    refine List.mem_iff_getElem?.mpr ⟨m, ?_⟩
    show (s.requests.set n { q with stage := stage })[m]? = some r
    rw [List.getElem?_set_ne, hm]
    rintro rfl
    rw [hq] at hm
    exact hne (Option.some.inj hm)

theorem version_mem {e : Event} (hs : step x s e = some t) {v : FunctionVersion}
    (hv : v ∈ s.db.versions) : v ∈ t.db.versions := by
  cases step_effect hs with
  | named ownerId name functionId db hname he =>
    show v ∈ db.versions
    exact he ▸ hv
  | accepted => exact hv
  | advanced n id q stage db files hq ha =>
    cases ha with
    | inserted functionId number package db' hst hi =>
      obtain ⟨versions, hins, rfl⟩ := Database.insertFunctionVersion_ok hi
      exact (Table.mem_insert hins).mpr (Or.inl hv)
    | missing | found | numbered | reserved | refused | stored | foundAgain | conflict => exact hv
  | other call ledger hl hf he =>
    show v ∈ ledger.db.versions
    exact he ▸ hv

/-- **Uploaded versions are immutable as long as no upload writes under a number that is taken or
about to be taken.** -/
theorem uploads_immutable (h : ReachableBy (step x) (WritesApart x) init s) :
    UploadsIntact x s ∧
    ∀ e t, WritesApart x s e → step x s e = some t → PackagesKept x s t := by
  have hintact := (placed_reachable h).intact (inv_reachable h)
  refine ⟨hintact, fun e t hok hs r hr versionId hc hst v hv hid => ?_⟩
  obtain ⟨contents, hc⟩ := Option.ne_none_iff_exists'.mp hc
  have ht := h.next hok hs
  obtain ⟨w, hw, hwid, hread, -⟩ := hintact r hr contents versionId hc hst
  obtain ⟨w', hw', hwid', hread', -⟩ := (placed_reachable ht).intact (inv_reachable ht) r
    (returned_mem hs hr hst) contents versionId hc hst
  have hvw : v = w := Table.eq_of_key hv hw (hid.trans hwid.symm)
  have hvw' : v = w' := Table.eq_of_key (version_mem hs hv) hw' (hid.trans hwid'.symm)
  rw [← hvw] at hread
  rw [← hvw'] at hread'
  rw [hread, hread']

/-- The version that a request has created. -/
def Stage.versionId : Stage → Option UUID
  | .returned versionId => some versionId
  | .lookUp | .readNumber _ | .store _ | .lookUpAgain _ _ | .insert _ _ _ | .raised _ => none

theorem Stage.versionId_some {stage : Stage} {versionId : UUID}
    (h : stage.versionId = some versionId) : stage = .returned versionId := by
  cases stage with
  | returned id =>
    cases h
    rfl
  | lookUp | readNumber | store | lookUpAgain | insert | raised => cases h

/-- The request has ended in an error. -/
def Stage.failed : Stage → Bool
  | .raised _ => true
  | .lookUp | .readNumber _ | .store _ | .lookUpAgain _ _ | .insert _ _ _ | .returned _ => false

/-- Two uploads, one after the other. -/
def sequentialUploads : List Event :=
  [.createFunction 7 "hello" 1,
    .accept 7 "hello" (.upload {} firstZip), .accept 7 "hello" (.upload {} secondZip),
    .advance 0 0, .advance 0 0, .advance 0 0, .advance 0 0, .advance 0 2,
    .advance 1 0, .advance 1 0, .advance 1 0, .advance 1 0, .advance 1 3]

theorem uploads_immutable_sequential :
    ∃ s, ReachableBy (step demoStorage) (WritesApart demoStorage) init s ∧
      ∃ v ∈ s.db.versions, v.versionNumber = 1 ∧ packageOf demoStorage s v = some firstZip ∧
        v.packageHash = demoStorage.sha256 firstZip ∧ s.db.versions.rows.length = 2 := by
  obtain ⟨s, hs, hp⟩ := reachableBy_of_replayWhere (step demoStorage) sequentialUploads
    (fun s => (s.requests.any fun r => r.body.contents = some firstZip ∧
        r.stage.versionId = some 2) &&
      decide (∀ v ∈ s.db.versions.rows, v.id = 2 → v.versionNumber = 1) &&
      decide (s.db.versions.rows.length = 2))
    (fun s e (he : decide (WritesApart demoStorage s e) = true) => of_decide_eq_true he)
    init_empty (by decide +kernel)
  simp only [Bool.and_eq_true, List.any_eq_true, decide_eq_true_eq] at hp
  obtain ⟨⟨⟨r, hr, hc, hid⟩, hnumber⟩, hlen⟩ := hp
  obtain ⟨v, hv, hvid, hread, hhash⟩ :=
    (uploads_immutable hs).1 r hr firstZip 2 hc (Stage.versionId_some hid)
  exact ⟨s, hs, v, hv, hnumber v hv hvid, hread, hhash, hlen⟩

/-- Two uploads that have read the same number. The second one writes when the first has returned,
and is then rejected. -/
def racingUploads : List Event :=
  [.createFunction 7 "hello" 1,
    .accept 7 "hello" (.upload {} firstZip), .accept 7 "hello" (.upload {} secondZip),
    .advance 0 0, .advance 1 0, .advance 0 0, .advance 1 0,
    .advance 0 0, .advance 0 0, .advance 0 2,
    .advance 1 0, .advance 1 0, .advance 1 3]

/-- **A rejected upload replaces the package of an existing version.** -/
theorem uploads_overwritten : ∃ s, Reachable (step demoStorage) init s ∧
    ¬ UploadsIntact demoStorage s ∧
    ∃ v ∈ s.db.versions, v.packageHash = demoStorage.sha256 firstZip ∧
      packageOf demoStorage s v = some secondZip ∧
      ∃ q ∈ s.requests, q.body.contents = some secondZip ∧ q.stage.failed = true := by
  obtain ⟨s, hs, hp⟩ := reachable_of_replay (step demoStorage) racingUploads
    (fun s => (s.requests.any fun r => r.body.contents = some firstZip ∧
        r.stage.versionId = some 2) &&
      (s.requests.any fun q => q.body.contents = some secondZip ∧ q.stage.failed = true) &&
      (s.db.versions.rows.any fun v => v.id = 2 ∧
        v.packageHash = demoStorage.sha256 firstZip ∧
        packageOf demoStorage s v = some secondZip))
    init_empty (by decide +kernel)
  simp only [Bool.and_eq_true, List.any_eq_true, decide_eq_true_eq] at hp
  obtain ⟨⟨⟨r, hr, hc, hid⟩, q, hq, hqc, hqf⟩, v, hv, hvid, hhash, hread⟩ := hp
  refine ⟨s, hs, fun hintact => ?_, v, hv, hhash, hread, q, hq, hqc, hqf⟩
  obtain ⟨w, hw, hwid, hwread, -⟩ := hintact r hr firstZip 2 hc (Stage.versionId_some hid)
  have hvw : v = w := Table.eq_of_key hv hw (hvid.trans hwid.symm)
  rw [← hvw, hread] at hwread
  exact absurd (Option.some.inj hwread) (by decide +kernel)

end Serverless.Registry
