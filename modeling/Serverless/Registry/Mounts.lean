import Serverless.Model.PackagePaths
import Serverless.Registry.Numbers

/-!
# What a container is given

The worker binds the resolved `package_uri` of a version into the container. For an
upload that is the stored package; the JSON route takes any text, so the same holds for it
only if every text it is sent already names something in the owner's part of the package
storage.
-/
namespace Serverless.Registry

open Serverless.Library Serverless.Model PosixPath

/-- The API's storage service and the workspace of the worker. -/
structure Deployment where
  api : LocalPackageStorageService
  workerRoot : PosixPath

namespace Deployment

variable (d : Deployment)

/-- The package storage directory on the worker's side. -/
def storageDir : PosixPath := d.api.storageDirFrom d.workerRoot

/-- The path that `execute_container` binds for a version. -/
def mount (packageUri : String) : PosixPath := resolvePath d.workerRoot packageUri

/-- The path is inside the package storage directory. -/
def InStorage (p : PosixPath) : Prop := Below d.storageDir p

/-- The path is in the subdirectory of an owner, or is that subdirectory. -/
def InDirectoryOf (ownerId : UUID) (p : PosixPath) : Prop :=
  ∃ rest, collapse p.parts = collapse d.storageDir.parts ++ ownerId.str.toList :: rest

/-- The path is inside the storage directory and not inside another owner's part of it. -/
def Confined (ownerId : UUID) (p : PosixPath) : Prop :=
  d.InStorage p ∧ ∀ other, other ≠ ownerId → ¬ d.InDirectoryOf other p

/-- An uploaded package is in the directory of its owner. -/
theorem confined_package (hout : d.api.WorkspaceOutside) {ownerId : UUID} {functionName : String}
    (hname : matchesFunctionName functionName = true) (n : Nat) :
    d.Confined ownerId (d.mount
      (storageRef d.api.workspaceRoot (d.api.packagePath ownerId functionName n))) := by
  have hparts : collapse (d.mount (storageRef d.api.workspaceRoot
      (d.api.packagePath ownerId functionName n))).parts = collapse d.storageDir.parts ++
        LocalPackageStorageService.packageSegments ownerId functionName n :=
    LocalPackageStorageService.resolvePath_package d.workerRoot hout hname n
  constructor
  · exact ⟨_, List.cons_ne_nil _ _, hparts⟩
  · rintro other hne ⟨rest, hrest⟩
    rw [hparts] at hrest
    have hs := List.append_cancel_left hrest
    exact hne (UUID.str_injective (List.cons.inj hs).1).symm

end Deployment

/-- Every `package_uri` that the JSON route is sent is one of the sender's packages. -/
def RefersToOwn (d : Deployment) (_ : State) : Event → Prop
  | .accept ownerId _ (.json payload) => d.Confined ownerId (d.mount payload.package.packageUri)
  | .accept _ _ (.upload _ _) | .createFunction _ _ _ | .advance _ _ | .other _ => True

/-- The event sends no reference. -/
def Event.refersToNothing : Event → Bool
  | .accept _ _ (.json _) => false
  | .accept _ _ (.upload _ _) | .createFunction _ _ _ | .advance _ _ | .other _ => true

theorem refersToOwn_of_nothing {d : Deployment} {s : State} {e : Event}
    (h : e.refersToNothing = true) : RefersToOwn d s e := by
  cases e with
  | accept ownerId functionName body =>
    cases body with
    | json payload => cases h
    | upload settings contents => trivial
  | createFunction | advance | other => trivial

/-- The reference that a request has been sent, and the one it is going to insert. -/
structure Carries (d : Deployment) (r : VersionRequest) : Prop where
  sent : ∀ payload, r.body = .json payload →
    d.Confined r.ownerId (d.mount payload.package.packageUri)
  stored : ∀ number package, r.stage.stored = some (number, package) →
    d.Confined r.ownerId (d.mount package.packageUri)

/-- What is kept about references and owners. -/
structure Mounted (d : Deployment) (s : State) : Prop where
  requests : ∀ r ∈ s.requests, Carries d r
  versions : ∀ v ∈ s.db.versions, ∃ f ∈ s.db.functions, f.id = v.functionId ∧
    d.Confined f.ownerId (d.mount v.packageUri)
  invocations : ∀ i ∈ s.db.invocations, ∃ v ∈ s.db.versions, v.id = i.functionVersionId ∧
    ∃ f ∈ s.db.functions, f.id = v.functionId ∧ f.ownerId = i.ownerId

/-- One step of a request. -/
theorem Carries.advance {d : Deployment} {db db' : Database} {files files' : Files (List UInt8)}
    {r : VersionRequest} {versionId : UUID} {stage : Stage} (hout : d.api.WorkspaceOutside)
    (h : Carries d r) (hname : ∀ k, r.stage.number = some k →
      matchesFunctionName r.functionName = true)
    (ha : Advanced d.api db files r versionId stage db' files') :
    Carries d { r with stage := stage } := by
  refine ⟨h.sent, fun number package hst => ?_⟩
  cases ha with
  | missing | found | reserved | refused | conflict | inserted => cases hst
  | numbered functionId payload hst' hb =>
    cases hst
    exact h.sent payload hb
  | stored number settings contents hst' hb hv =>
    cases hst
    dsimp only
    exact d.confined_package hout (hname number (by rw [hst']; rfl)) number
  | foundAgain function number package hst' hf =>
    cases hst
    exact h.stored number package (by rw [hst']; rfl)

namespace Mounted

variable {d : Deployment} {s t : State}

theorem init (h : Registry.init s) : Mounted d s := by
  obtain ⟨hl, hr⟩ := h
  have hdb : s.db = .fresh .empty .empty := by rw [State.db, hl]; rfl
  refine ⟨?_, ?_, ?_⟩
  · rw [hr]
    exact fun r hm => absurd hm List.not_mem_nil
  · rw [hdb]
    exact fun v hv => absurd hv (Table.not_mem_empty v)
  · rw [hdb]
    exact fun i hi => absurd hi (Table.not_mem_empty i)

/-- Steps that only add functions. -/
theorem frame {db : Database} (h : Mounted d s) (hv : db.versions = s.db.versions)
    (hi : db.invocations = s.db.invocations) (hf : ∀ f ∈ s.db.functions, f ∈ db.functions) :
    Mounted d (s.withDb db) := by
  refine ⟨h.requests, fun v hm => ?_, fun i hm => ?_⟩
  · change v ∈ db.versions at hm
    rw [hv] at hm
    obtain ⟨f, hfm, hrest⟩ := h.versions v hm
    exact ⟨f, hf f hfm, hrest⟩
  · change i ∈ db.invocations at hm
    rw [hi] at hm
    obtain ⟨v, hvm, hid, f, hfm, hrest⟩ := h.invocations i hm
    refine ⟨v, ?_, hid, f, hf f hfm, hrest⟩
    show v ∈ db.versions
    rw [hv]
    exact hvm

/-- The rest of the platform pins invocations to versions of their owner. -/
theorem other {call : Ledger.Call} {ledger : Ledger.State} (h : Mounted d s)
    (hs : Ledger.step s.ledger call = some ledger)
    (hf : ledger.db.functions = s.db.functions) (hv : ledger.db.versions = s.db.versions) :
    Mounted d { s with ledger := ledger } := by
  have hversions : ∀ v, v ∈ ledger.db.versions ↔ v ∈ s.db.versions := fun v => by rw [hv]
  have hfunctions : ∀ f, f ∈ ledger.db.functions ↔ f ∈ s.db.functions := fun f => by rw [hf]
  refine ⟨h.requests, fun v hm => ?_, fun i' hm => ?_⟩
  · obtain ⟨f, hfm, hrest⟩ := h.versions v ((hversions v).mp hm)
    exact ⟨f, (hfunctions f).mpr hfm, hrest⟩
  · rcases (Ledger.step_effect hs).invocation_origin hm with
      ⟨i, hi, hsame⟩ | ⟨request, version, invocationId, dispatchId, now, rfl, hnew, hnone⟩
    · obtain ⟨v, hvm, hid, f, hfm, hfid, ho⟩ := h.invocations i hi
      exact ⟨v, (hversions v).mpr hvm, hid.trans hsame.version.symm, f, (hfunctions f).mpr hfm,
        hfid, ho.trans hsame.owner.symm⟩
    · obtain ⟨v, hvm, he, f, hfm, hfid, ho⟩ :=
        Ledger.createdInvocation_pinned hs hnone hm (by rw [hnew]; rfl)
      refine ⟨v, (hversions v).mpr hvm, ?_, f, (hfunctions f).mpr hfm, hfid, ?_⟩
      · rw [he]
        rfl
      · rw [he]
        exact ho

/-- A step of a request: what it carries, and the row it may add. -/
theorem advanced {n : Nat} {versionId : UUID} {r : VersionRequest} {stage : Stage}
    {db : Database} {files : Files (List UInt8)} (hout : d.api.WorkspaceOutside)
    (h : Mounted d s) (hinv : Inv s) (hr : s.requests[n]? = some r)
    (ha : Advanced d.api s.db s.files r versionId stage db files) :
    Mounted d { s.withDb db with
      files := files
      requests := s.requests.set n { r with stage := stage } } := by
  have hrm : r ∈ s.requests := List.mem_of_getElem? hr
  have hname : ∀ k, r.stage.number = some k → matchesFunctionName r.functionName = true := by
    intro k hk
    obtain ⟨f, hf, -, hn, -⟩ := (hinv.tracked r hrm).number k hk
    exact hn ▸ (hinv.names f hf).1
  have hrequests : ∀ q ∈ s.requests.set n { r with stage := stage }, Carries d q := by
    intro q hq
    rcases List.mem_or_eq_of_mem_set hq with hq | rfl
    · exact h.requests q hq
    · exact (h.requests r hrm).advance hout hname ha
  cases ha with
  | missing | found | numbered | reserved | refused | stored | foundAgain | conflict =>
    exact ⟨hrequests, h.versions, h.invocations⟩
  | inserted functionId number package db' hst hi =>
    obtain ⟨versions, hv, rfl⟩ := Database.insertFunctionVersion_ok hi
    refine ⟨hrequests, fun v hm => ?_, fun i hm => ?_⟩
    · rcases (Table.mem_insert hv).mp hm with hm | rfl
      · exact h.versions v hm
      · obtain ⟨f, hf, hid, ho, -⟩ := hinv.inserted hrm hst
        refine ⟨f, hf, hid, ?_⟩
        rw [ho]
        exact (h.requests r hrm).stored number package (by rw [hst]; rfl)
    · obtain ⟨v, hvm, hrest⟩ := h.invocations i hm
      exact ⟨v, (Table.mem_insert hv).mpr (Or.inl hvm), hrest⟩

theorem step {e : Event} (hout : d.api.WorkspaceOutside) (h : Mounted d s) (hinv : Inv s)
    (hok : RefersToOwn d s e) (hs : Registry.step d.api s e = some t) : Mounted d t := by
  cases step_effect hs with
  | named ownerId name functionId db hname hv hi hf =>
    refine h.frame hv hi fun f hm => ?_
    rcases hf with hf | hf
    · exact hf ▸ hm
    · exact (Table.mem_insert hf).mpr (Or.inl hm)
  | accepted ownerId functionName body hb =>
    refine ⟨fun r hr => ?_, h.versions, h.invocations⟩
    rcases List.mem_append.mp hr with hr | hr
    · exact h.requests r hr
    · rw [List.mem_singleton.mp hr]
      refine ⟨fun payload hp => ?_, fun number package hst => by cases hst⟩
      change body = .json payload at hp
      subst hp
      exact hok
  | advanced n versionId r stage db files hr ha => exact h.advanced hout hinv hr ha
  | other call ledger hl hf hv => exact h.other hl hf hv

end Mounted

theorem mounted_reachable {d : Deployment} (hout : d.api.WorkspaceOutside) {s : State}
    (h : ReachableBy (step d.api) (RefersToOwn d) init s) : Mounted d s :=
  h.invariant (fun _ hi => .init hi) fun hr hm hok hs =>
    hm.step hout (inv_reachable hr) hok hs

/-- **A container only sees a package of its owner, as long as every reference that is sent to the
JSON route is one.** -/
theorem mounts_confined {d : Deployment} (hout : d.api.WorkspaceOutside) {s : State}
    (h : ReachableBy (step d.api) (RefersToOwn d) init s) {task : InvocationTask} {now : Time}
    {spec : RuntimeInvocationSpec} (hplan : planExecution s.db task now = .container spec) :
    d.Confined task.ownerId (d.mount spec.packageUri) := by
  have hm := mounted_reachable hout h
  obtain ⟨i, v, f, hp⟩ := planExecution_container hplan
  obtain ⟨v', hv', hid, f', hf', hfid, ho⟩ := hm.invocations i (Table.get_mem hp.invocation)
  have hvv : v' = v := Table.eq_of_key hv' (Table.get_mem hp.version)
    (hid.trans (Table.get_key hp.version).symm)
  obtain ⟨g, hg, hgid, hconfined⟩ := hm.versions v (Table.get_mem hp.version)
  have hfg : f' = g := Table.eq_of_key hf' hg (by rw [hfid, hgid, hvv])
  rw [hp.package, ← hp.owner, ← ho, hfg]
  exact hconfined

/-- The compose file: the API in `/app`, the worker in a checkout on the host. -/
def demoDeployment : Deployment where
  api := demoStorage
  workerRoot := .parse "/srv/platform"

/-- Register a version, invoke it and publish the invocation. -/
def invokeRun (body : VersionBody) (steps : Nat) : List Event :=
  [.createFunction 7 "hello" 1, .accept 7 "hello" body] ++
    List.replicate steps (.advance 0 2) ++
    [.other (.createInvocation { ownerId := 7, functionName := "hello", payload := .null } 3 4 0),
      .other (.dispatchPending 100 0 [(.returned, 0)])]

/-- The task of the published message. -/
def helloTask : InvocationTask := parseInvocationTask 1 ⟨3, 2, 7, 1, 0, seconds 30⟩ false

theorem mounts_confined_upload :
    ∃ s, ReachableBy (step demoStorage) (RefersToOwn demoDeployment) init s ∧
      ∃ spec, planExecution s.db helloTask 0 = .container spec ∧
        demoDeployment.Confined 7 (demoDeployment.mount spec.packageUri) := by
  obtain ⟨s, hs, hp⟩ := reachableBy_of_replayWhere (step demoStorage)
    (invokeRun (.upload {} firstZip) 5)
    (fun s => (planExecution s.db helloTask 0).spec.isSome)
    (fun s e (he : e.refersToNothing = true) =>
      show RefersToOwn demoDeployment s e from refersToOwn_of_nothing he)
    init_empty (by decide +kernel)
  obtain ⟨spec, hspec⟩ := Option.isSome_iff_exists.mp hp
  have hplan := Plan.spec_some hspec
  exact ⟨s, hs, spec, hplan, mounts_confined (d := demoDeployment) (by decide +kernel) hs hplan⟩

/-- **The JSON route accepts the Docker socket of the host as a package.** -/
theorem docker_socket_mounted : ∃ s spec, Reachable (step demoStorage) init s ∧
    planExecution s.db helloTask 0 = .container spec ∧
    demoDeployment.mount spec.packageUri = .parse "/var/run/docker.sock" ∧
    ¬ demoDeployment.Confined 7 (demoDeployment.mount spec.packageUri) := by
  obtain ⟨s, hs, hp⟩ := reachable_of_replay (step demoStorage)
    (invokeRun (.json { package := ⟨"/var/run/docker.sock", "0123456789abcdef"⟩ }) 3)
    (fun s => (planExecution s.db helloTask 0).spec.any fun spec =>
      demoDeployment.mount spec.packageUri = .parse "/var/run/docker.sock")
    init_empty (by decide +kernel)
  obtain ⟨spec, hspec, hmount⟩ := (Option.any_eq_true _ _).mp hp
  have hmount := of_decide_eq_true hmount
  refine ⟨s, spec, hs, Plan.spec_some hspec, hmount, fun hconfined => ?_⟩
  -- inside the storage directory the first segment would be that of the checkout
  obtain ⟨rest, -, hrest⟩ := hconfined.1
  rw [hmount] at hrest
  have hdir : (collapse demoDeployment.storageDir.parts).head? = some "srv".toList := by
    decide +kernel
  have hfirst := congrArg List.head? hrest
  rw [List.head?_append, hdir, Option.some_or] at hfirst
  exact absurd hfirst (by decide +kernel)

end Serverless.Registry
