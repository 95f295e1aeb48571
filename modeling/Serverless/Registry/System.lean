import Serverless.Ledger.Origins
import Serverless.Model.Registry

/-!
# Concurrent version requests

`create_function_version` and `upload_function_version` of
`backend/app/api/routes/functions.py`, each advancing one statement or one file write at a
time: look the function up, read the next number and, for an upload, store the package
and look the function up again; then insert the row, which the unique constraint may
reject. Any number of requests are in progress, of any owners, and the rest of the
platform runs between their steps. Only requests that pass the schemas are accepted.
-/
namespace Serverless.Registry

open Serverless.Library Serverless.Model

/-- The body of one of the two version routes. -/
inductive VersionBody where
  | json (payload : FunctionVersionCreate)
  | upload (settings : VersionSettings) (contents : List UInt8)

namespace VersionBody

def settings : VersionBody → VersionSettings
  | json payload => payload.settings
  | upload settings _ => settings

/-- The bytes of an upload. -/
def contents : VersionBody → Option (List UInt8)
  | json _ => none
  | upload _ contents => some contents

def Valid : VersionBody → Prop
  | json payload => payload.Valid
  | upload settings _ => settings.Valid

instance : (b : VersionBody) → Decidable b.Valid
  | json payload => inferInstanceAs (Decidable payload.Valid)
  | upload settings _ => inferInstanceAs (Decidable settings.Valid)

end VersionBody

/-- Where a request stands between two of its steps. -/
inductive Stage where
  | lookUp
  | readNumber (functionId : UUID)
  | store (number : Nat)
  | lookUpAgain (number : Nat) (package : StoredPackage)
  | insert (functionId : UUID) (number : Nat) (package : StoredPackage)
  | returned (versionId : UUID)
  | raised (error : RegistryError)

structure VersionRequest where
  ownerId : UUID
  functionName : String
  body : VersionBody
  stage : Stage := .lookUp

structure State where
  ledger : Ledger.State
  files : Files (List UInt8)
  requests : List VersionRequest

def State.db (s : State) : Database := s.ledger.db

/-- The next step of a request: the stage it comes to, and the database and the files it leaves.
The number of an upload has been read and is not zero, so it is the one that is inserted. -/
def advance (x : LocalPackageStorageService) (db : Database) (files : Files (List UInt8))
    (r : VersionRequest) (versionId : UUID) : Option (Stage × Database × Files (List UInt8)) :=
  match r.stage with
  | .lookUp =>
    match db.getFunctionByName r.ownerId r.functionName with
    | none => some (.raised (.functionNotFound r.functionName), db, files)
    | some function => some (.readNumber function.id, db, files)
  | .readNumber functionId =>
    let number := db.getNextVersionNumber functionId
    match r.body with
    | .json payload => some (.insert functionId number payload.package, db, files)
    | .upload _ _ => some (.store number, db, files)
  | .store number =>
    match r.body with
    | .json _ => none
    | .upload settings contents =>
      match x.storeFunctionPackage files r.ownerId r.functionName number settings.handler
          contents with
      | .error e => some (.raised e, db, files)
      | .ok (files', package) => some (.lookUpAgain number package, db, files')
  | .lookUpAgain number package =>
    match db.getFunctionByName r.ownerId r.functionName with
    | none => some (.raised (.functionNotFound r.functionName), db, files)
    | some function => some (.insert function.id number package, db, files)
  | .insert functionId number package =>
    match db.insertFunctionVersion functionId number r.body.settings package versionId with
    | .error _ => some (.raised (.functionVersionConflict r.functionName), db, files)
    | .ok db' => some (.returned versionId, db', files)
  | .returned _ | .raised _ => none

inductive Event where
  | createFunction (ownerId : UUID) (name : String) (functionId : UUID)
  | accept (ownerId : UUID) (functionName : String) (body : VersionBody)
  | advance (request : Nat) (versionId : UUID)
  | other (call : Ledger.Call)

/-- Calls of the rest of the platform; functions and versions are created by requests only. -/
def isOther : Ledger.Call → Bool
  | .createFunction _ | .createFunctionVersion _ => false
  | _ => true

def State.withDb (s : State) (db : Database) : State := { s with ledger := { s.ledger with db := db } }

def step (x : LocalPackageStorageService) (s : State) : Event → Option State
  | .createFunction ownerId name functionId =>
    if matchesFunctionName name then
      some (s.withDb (s.db.createFunction ownerId name functionId).1)
    else none
  | .accept ownerId functionName body =>
    if body.Valid then
      some { s with
        requests := s.requests ++
          [{ ownerId := ownerId, functionName := functionName, body := body }] }
    else none
  | .advance n versionId =>
    match s.requests[n]? with
    | none => none
    | some r =>
      match Registry.advance x s.db s.files r versionId with
      | none => none
      | some (stage, db, files) =>
        some { s.withDb db with
          files := files
          requests := s.requests.set n { r with stage := stage } }
  | .other call =>
    if isOther call then (Ledger.step s.ledger call).map fun l => { s with ledger := l } else none

/-- Nothing is registered and no request has been accepted; any files may lie about. -/
def init (s : State) : Prop := s.ledger = Ledger.empty ∧ s.requests = []

/-- What one step of a request can do. -/
inductive Advanced (x : LocalPackageStorageService) (db : Database) (files : Files (List UInt8))
    (r : VersionRequest) (versionId : UUID) : Stage → Database → Files (List UInt8) → Prop where
  | missing (hst : r.stage = .lookUp ∨ ∃ number package, r.stage = .lookUpAgain number package) :
      Advanced x db files r versionId (.raised (.functionNotFound r.functionName)) db files
  | found (function : Function) (hst : r.stage = .lookUp)
      (hf : db.getFunctionByName r.ownerId r.functionName = some function) :
      Advanced x db files r versionId (.readNumber function.id) db files
  | numbered (functionId : UUID) (payload : FunctionVersionCreate)
      (hst : r.stage = .readNumber functionId) (hb : r.body = .json payload) :
      Advanced x db files r versionId
        (.insert functionId (db.getNextVersionNumber functionId) payload.package) db files
  | reserved (functionId : UUID) (settings : VersionSettings) (contents : List UInt8)
      (hst : r.stage = .readNumber functionId) (hb : r.body = .upload settings contents) :
      Advanced x db files r versionId (.store (db.getNextVersionNumber functionId)) db files
  | refused (number : Nat) (e : RegistryError) (hst : r.stage = .store number) :
      Advanced x db files r versionId (.raised e) db files
  | stored (number : Nat) (settings : VersionSettings) (contents : List UInt8)
      (hst : r.stage = .store number) (hb : r.body = .upload settings contents)
      (hv : x.validatePackage contents settings.handler = .ok ()) :
      Advanced x db files r versionId
        (.lookUpAgain number ⟨storageRef x.workspaceRoot
          (x.packagePath r.ownerId r.functionName number), x.sha256 contents⟩) db
        (files.write (x.packagePath r.ownerId r.functionName number) contents)
  | foundAgain (function : Function) (number : Nat) (package : StoredPackage)
      (hst : r.stage = .lookUpAgain number package)
      (hf : db.getFunctionByName r.ownerId r.functionName = some function) :
      Advanced x db files r versionId (.insert function.id number package) db files
  | conflict (functionId : UUID) (number : Nat) (package : StoredPackage)
      (hst : r.stage = .insert functionId number package) :
      Advanced x db files r versionId (.raised (.functionVersionConflict r.functionName)) db files
  | inserted (functionId : UUID) (number : Nat) (package : StoredPackage) (db' : Database)
      (hst : r.stage = .insert functionId number package)
      (h : db.insertFunctionVersion functionId number r.body.settings package versionId =
        .ok db') :
      Advanced x db files r versionId (.returned versionId) db' files

/-- **Every step of a request is one of the listed ones.** -/
theorem advance_cases {x : LocalPackageStorageService} {db db' : Database}
    {files files' : Files (List UInt8)} {r : VersionRequest} {versionId : UUID} {stage : Stage}
    (h : advance x db files r versionId = some (stage, db', files')) :
    Advanced x db files r versionId stage db' files' := by
  unfold advance at h
  cases hst : r.stage with
  | lookUp =>
    cases hf : db.getFunctionByName r.ownerId r.functionName with
    | none =>
      simp only [hst, hf, Option.some.injEq, Prod.mk.injEq] at h
      obtain ⟨rfl, rfl, rfl⟩ := h
      exact .missing (Or.inl hst)
    | some function =>
      simp only [hst, hf, Option.some.injEq, Prod.mk.injEq] at h
      obtain ⟨rfl, rfl, rfl⟩ := h
      exact .found function hst hf
  | readNumber functionId =>
    cases hb : r.body with
    | json payload =>
      simp only [hst, hb, Option.some.injEq, Prod.mk.injEq] at h
      obtain ⟨rfl, rfl, rfl⟩ := h
      exact .numbered functionId payload hst hb
    | upload settings contents =>
      simp only [hst, hb, Option.some.injEq, Prod.mk.injEq] at h
      obtain ⟨rfl, rfl, rfl⟩ := h
      exact .reserved functionId settings contents hst hb
  | store number =>
    cases hb : r.body with
    | json payload => simp [hst, hb] at h
    | upload settings contents =>
      simp only [hst, hb, LocalPackageStorageService.storeFunctionPackage] at h
      cases hv : x.validatePackage contents settings.handler with
      | error e =>
        simp only [hv, Option.some.injEq, Prod.mk.injEq] at h
        obtain ⟨rfl, rfl, rfl⟩ := h
        exact .refused number e hst
      | ok u =>
        simp only [hv, Option.some.injEq, Prod.mk.injEq] at h
        obtain ⟨rfl, rfl, rfl⟩ := h
        exact .stored number settings contents hst hb hv
  | lookUpAgain number package =>
    cases hf : db.getFunctionByName r.ownerId r.functionName with
    | none =>
      simp only [hst, hf, Option.some.injEq, Prod.mk.injEq] at h
      obtain ⟨rfl, rfl, rfl⟩ := h
      exact .missing (Or.inr ⟨number, package, hst⟩)
    | some function =>
      simp only [hst, hf, Option.some.injEq, Prod.mk.injEq] at h
      obtain ⟨rfl, rfl, rfl⟩ := h
      exact .foundAgain function number package hst hf
  | insert functionId number package =>
    cases hi : db.insertFunctionVersion functionId number r.body.settings package versionId with
    | error v =>
      simp only [hst, hi, Option.some.injEq, Prod.mk.injEq] at h
      obtain ⟨rfl, rfl, rfl⟩ := h
      exact .conflict functionId number package hst
    | ok db'' =>
      simp only [hst, hi, Option.some.injEq, Prod.mk.injEq] at h
      obtain ⟨rfl, rfl, rfl⟩ := h
      exact .inserted functionId number package db'' hst hi
  | returned versionId => simp [hst] at h
  | raised error => simp [hst] at h

/-- What an event can do. -/
inductive Effect (x : LocalPackageStorageService) (s : State) : Event → State → Prop where
  | named (ownerId : UUID) (name : String) (functionId : UUID) (db : Database)
      (hname : matchesFunctionName name = true) (hv : db.versions = s.db.versions)
      (hi : db.invocations = s.db.invocations)
      (hf : db.functions = s.db.functions ∨
        s.db.functions.insert ⟨functionId, ownerId, name, none⟩ = .ok db.functions) :
      Effect x s (.createFunction ownerId name functionId) (s.withDb db)
  | accepted (ownerId : UUID) (functionName : String) (body : VersionBody) (hb : body.Valid) :
      Effect x s (.accept ownerId functionName body) { s with
        requests := s.requests ++
          [{ ownerId := ownerId, functionName := functionName, body := body }] }
  | advanced (n : Nat) (versionId : UUID) (r : VersionRequest) (stage : Stage) (db : Database)
      (files : Files (List UInt8)) (hr : s.requests[n]? = some r)
      (ha : Advanced x s.db s.files r versionId stage db files) :
      Effect x s (.advance n versionId) { s.withDb db with
        files := files
        requests := s.requests.set n { r with stage := stage } }
  | other (call : Ledger.Call) (ledger : Ledger.State)
      (hs : Ledger.step s.ledger call = some ledger)
      (hf : ledger.db.functions = s.db.functions) (hv : ledger.db.versions = s.db.versions) :
      Effect x s (.other call) { s with ledger := ledger }

theorem createFunction_cases (db : Database) (ownerId : UUID) (name : String)
    (functionId : UUID) :
    (db.createFunction ownerId name functionId).1.versions = db.versions ∧
    (db.createFunction ownerId name functionId).1.invocations = db.invocations ∧
    ((db.createFunction ownerId name functionId).1.functions = db.functions ∨
      db.functions.insert ⟨functionId, ownerId, name, none⟩ =
        .ok (db.createFunction ownerId name functionId).1.functions) := by
  unfold Database.createFunction
  cases hg : db.getFunctionByName ownerId name with
  | some f => exact ⟨rfl, rfl, Or.inl rfl⟩
  | none =>
    dsimp only
    split
    · exact ⟨rfl, rfl, Or.inl rfl⟩
    · rename_i functions hi
      exact ⟨rfl, rfl, Or.inr hi⟩

theorem step_effect {x : LocalPackageStorageService} {s t : State} {e : Event}
    (h : step x s e = some t) : Effect x s e t := by
  cases e with
  | createFunction ownerId name functionId =>
    simp only [step, Option.ite_none_right_eq_some, Option.some.injEq] at h
    obtain ⟨hname, rfl⟩ := h
    obtain ⟨hv, hi, hf⟩ := createFunction_cases s.db ownerId name functionId
    exact .named ownerId name functionId _ hname hv hi hf
  | accept ownerId functionName body =>
    simp only [step, Option.ite_none_right_eq_some, Option.some.injEq] at h
    obtain ⟨hb, rfl⟩ := h
    exact .accepted ownerId functionName body hb
  | advance n versionId =>
    simp only [step] at h
    cases hr : s.requests[n]? with
    | none => simp [hr] at h
    | some r =>
      cases ha : Registry.advance x s.db s.files r versionId with
      | none => simp [hr, ha] at h
      | some result =>
        obtain ⟨stage, db, files⟩ := result
        simp only [hr, ha, Option.some.injEq] at h
        subst h
        exact .advanced n versionId r stage db files hr (advance_cases ha)
  | other call =>
    simp only [step, Option.ite_none_right_eq_some] at h
    obtain ⟨ho, h⟩ := h
    obtain ⟨ledger, hs, rfl⟩ := Option.map_eq_some_iff.mp h
    rcases Ledger.registry_step hs with ⟨hf, hv⟩ | ⟨row, rfl, -⟩ | ⟨row, rfl, -⟩
    · exact .other call ledger hs hf hv
    · cases ho
    · cases ho

/-- A zip archive of one stored file `main.py`, the handler in it returning the digit. -/
def helloZip (crc : List UInt8) (digit : UInt8) : List UInt8 :=
  [80, 75, 3, 4, 20, 0, 0, 0, 0, 0, 0, 0, 33, 0] ++ crc ++
    [33, 0, 0, 0, 33, 0, 0, 0, 7, 0, 0, 0, 109, 97, 105, 110, 46, 112, 121, 100, 101, 102, 32, 104,
      97, 110, 100, 108, 101, 114, 40, 101, 118, 101, 110, 116, 41, 58, 10, 32, 32, 32, 32, 114,
      101, 116, 117, 114, 110, 32, digit, 10, 80, 75, 1, 2, 20, 3, 20, 0, 0, 0, 0, 0, 0, 0, 33,
      0] ++ crc ++
    [33, 0, 0, 0, 33, 0, 0, 0, 7, 0, 0, 0, 0, 0, 0, 0, 0, 0, 0, 0, 128, 1, 0, 0, 0, 0, 109, 97, 105,
      110, 46, 112, 121, 80, 75, 5, 6, 0, 0, 0, 0, 1, 0, 1, 0, 53, 0, 0, 0, 70, 0, 0, 0, 0, 0]

def firstZip : List UInt8 := helloZip [22, 55, 39, 240] 49

def secondZip : List UInt8 := helloZip [213, 100, 10, 219] 50

/-- The service of the API container, as far as the two archives go. -/
def demoStorage : LocalPackageStorageService where
  workspaceRoot := .parse "/app"
  packageStorageDir := .parse "/app/storage/packages"
  namelist := fun contents =>
    if contents = firstZip ∨ contents = secondZip then .ok ["main.py"]
    else .error (.of "BadZipFile" "File is not a zip file")
  sha256 := fun contents =>
    if contents = firstZip then "49a5d9940a29b2caa72f518845604555127472cf30414bd8c1075ac6236a8fa7"
    else if contents = secondZip then
      "7c4ab1170be72d10e649972f8d567f02ffeaf4349fdbdc7c3820cc03dbf2935d"
    else ""
  root_resolved := by decide
  dir_absolute := by decide

/-- The empty platform with an empty disk. -/
def empty : State := ⟨Ledger.empty, fun _ => none, []⟩

theorem init_empty : init empty := ⟨rfl, rfl⟩

end Serverless.Registry
