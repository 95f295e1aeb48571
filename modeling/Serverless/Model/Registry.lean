import Serverless.Model.Invocations
import Serverless.Model.Runtime

/-!
# Functions, versions and packages

The request schemas of `backend/app/schemas/function.py`, `FunctionRegistryService` of
`backend/app/services/function_registry.py` and `LocalPackageStorageService` of
`backend/app/services/storage.py`. Reading a zip archive and SHA-256 are parameters of
the storage service.
-/
namespace Serverless.Model

open Serverless.Library

/-- `FUNCTION_NAME_PATTERN`. -/
def matchesFunctionName (name : String) : Bool :=
  match name.toList with
  | [] => false
  | c :: rest =>
    c.isAlpha && decide (rest.length ≤ 127) &&
      rest.all fun d => d.isAlphanum || d = '_' || d = '-'

def isIdentifier : List Char → Bool
  | [] => false
  | c :: rest => (c.isAlpha || c = '_') && rest.all fun d => d.isAlphanum || d = '_'

/-- `HANDLER_PATTERN`: at least two identifiers, separated by dots. -/
def matchesHandler (handler : String) : Bool :=
  let names := handler.toList.splitOn '.'
  decide (2 ≤ names.length) && names.all isIdentifier

/-- The columns that both version routes take from the request. -/
structure VersionSettings where
  runtime : String := "python3.11"
  handler : String := "main.handler"
  memoryLimitMb : Nat := 256
  cpuLimit : ℚ := 1 / 2
  timeoutSeconds : Nat := 30

/-- The bounds that both version routes declare. -/
structure VersionSettings.Valid (v : VersionSettings) : Prop where
  runtime : v.runtime = "python3.11"
  handler : 3 ≤ v.handler.length ∧ v.handler.length ≤ 255 ∧ matchesHandler v.handler = true
  memory : 64 ≤ v.memoryLimitMb ∧ v.memoryLimitMb ≤ 1024
  cpu : 1 / 10 ≤ v.cpuLimit ∧ v.cpuLimit ≤ 2
  timeout : 1 ≤ v.timeoutSeconds ∧ v.timeoutSeconds ≤ 300

instance (v : VersionSettings) : Decidable v.Valid :=
  decidable_of_iff
    (v.runtime = "python3.11" ∧
      (3 ≤ v.handler.length ∧ v.handler.length ≤ 255 ∧ matchesHandler v.handler = true) ∧
      (64 ≤ v.memoryLimitMb ∧ v.memoryLimitMb ≤ 1024) ∧
      (1 / 10 ≤ v.cpuLimit ∧ v.cpuLimit ≤ 2) ∧ 1 ≤ v.timeoutSeconds ∧ v.timeoutSeconds ≤ 300)
    ⟨fun ⟨hr, hh, hm, hc, ht⟩ => ⟨hr, hh, hm, hc, ht⟩,
      fun h => ⟨h.runtime, h.handler, h.memory, h.cpu, h.timeout⟩⟩

def FunctionVersion.settings (v : FunctionVersion) : VersionSettings where
  runtime := v.runtime
  handler := v.handler
  memoryLimitMb := v.memoryLimitMb
  cpuLimit := v.cpuLimit
  timeoutSeconds := v.timeoutSeconds

/-- `StoredPackage`: where a package is and what it hashes to. -/
structure StoredPackage where
  packageUri : String
  packageHash : String
  deriving DecidableEq

/-- `FunctionVersionCreate`, the body of the JSON route. -/
structure FunctionVersionCreate where
  settings : VersionSettings := {}
  package : StoredPackage

def FunctionVersionCreate.Valid (payload : FunctionVersionCreate) : Prop :=
  payload.settings.Valid ∧
    (1 ≤ payload.package.packageUri.length ∧ payload.package.packageUri.length ≤ 1024) ∧
    16 ≤ payload.package.packageHash.length ∧ payload.package.packageHash.length ≤ 128

instance (payload : FunctionVersionCreate) : Decidable payload.Valid :=
  inferInstanceAs (Decidable (_ ∧ _))

inductive RegistryError where
  | functionNameAlreadyExists (name : String)
  | functionNotFound (name : String)
  | functionVersionConflict (functionName : String)
  | packageValidation (detail : String)
  | raised (e : PyException)

namespace Database

def getFunctionByName (db : Database) (ownerId : UUID) (name : String) : Option Function :=
  db.functions.rows.find? fun f => f.ownerId = ownerId ∧ f.name = name ∧ f.deletedAt = none

/-- The whole call: the look-up before the insert only spares the insert. -/
def createFunction (db : Database) (ownerId : UUID) (name : String) (functionId : UUID) :
    Database × Except RegistryError Function :=
  match db.getFunctionByName ownerId name with
  | some _ => (db, .error (.functionNameAlreadyExists name))
  | none =>
    let function : Function := ⟨functionId, ownerId, name, none⟩
    match db.functions.insert function with
    | .error _ => (db, .error (.functionNameAlreadyExists name))
    | .ok functions => ({ db with functions := functions }, .ok function)

/-- The version rows of one function. -/
def versionsOf (db : Database) (functionId : UUID) : List FunctionVersion :=
  db.versions.rows.filter fun v => v.functionId = functionId

/-- `get_next_version_number`: `max(version_number)` or zero, plus one. -/
def getNextVersionNumber (db : Database) (functionId : UUID) : Nat :=
  ((db.versionsOf functionId).map (·.versionNumber)).foldl max 0 + 1

end Database

/-- The row that `create_function_version` adds. -/
def newVersion (functionId : UUID) (versionNumber : Nat) (settings : VersionSettings)
    (package : StoredPackage) (versionId : UUID) : FunctionVersion where
  id := versionId
  functionId := functionId
  versionNumber := versionNumber
  runtime := settings.runtime
  handler := settings.handler
  packageUri := package.packageUri
  packageHash := package.packageHash
  memoryLimitMb := settings.memoryLimitMb
  cpuLimit := settings.cpuLimit
  timeoutSeconds := settings.timeoutSeconds

namespace Database

/-- The insert and commit of `create_function_version`. -/
def insertFunctionVersion (db : Database) (functionId : UUID) (versionNumber : Nat)
    (settings : VersionSettings) (package : StoredPackage) (versionId : UUID) :
    Except Violation Database :=
  (db.versions.insert (newVersion functionId versionNumber settings package versionId)).map
    fun versions => { db with versions := versions }

theorem insertFunctionVersion_ok {db db' : Database} {functionId : UUID} {versionNumber : Nat}
    {settings : VersionSettings} {package : StoredPackage} {versionId : UUID}
    (h : db.insertFunctionVersion functionId versionNumber settings package versionId = .ok db') :
    ∃ versions, db.versions.insert
        (newVersion functionId versionNumber settings package versionId) = .ok versions ∧
      db' = { db with versions := versions } := by
  unfold insertFunctionVersion at h
  cases hv : db.versions.insert (newVersion functionId versionNumber settings package versionId) with
  | error v => simp [hv, Except.map] at h
  | ok versions =>
    refine ⟨versions, rfl, ?_⟩
    simpa [hv, Except.map, eq_comm] using h

/-- The look-up finds a row of the owner with the name. -/
theorem getFunctionByName_some {db : Database} {ownerId : UUID} {name : String} {f : Function}
    (h : db.getFunctionByName ownerId name = some f) :
    f ∈ db.functions ∧ f.ownerId = ownerId ∧ f.name = name ∧ f.deletedAt = none := by
  have hp := List.find?_some h
  simp only [decide_eq_true_eq] at hp
  exact ⟨List.mem_of_find?_eq_some h, hp⟩

/-- The unique index on functions, read back. -/
theorem function_eq_of_name {db : Database} {f g : Function} (hf : f ∈ db.functions)
    (hg : g ∈ db.functions) (ho : f.ownerId = g.ownerId) (hn : f.name = g.name) : f = g :=
  Table.eq_of_uniq hf hg (x := (g.ownerId, g.name)) (by simp [Function.ownerName, ho, hn]) rfl

theorem getFunctionByName_eq {db : Database} {f : Function} (hf : f ∈ db.functions)
    (hd : f.deletedAt = none) : db.getFunctionByName f.ownerId f.name = some f := by
  cases hg : db.getFunctionByName f.ownerId f.name with
  | none =>
    have hx := List.find?_eq_none.mp hg f hf
    simp [hd] at hx
  | some g =>
    obtain ⟨hgm, ho, hn, -⟩ := getFunctionByName_some hg
    rw [function_eq_of_name hgm hf ho hn]

theorem mem_versionsOf {db : Database} {functionId : UUID} {v : FunctionVersion} :
    v ∈ db.versionsOf functionId ↔ v ∈ db.versions ∧ v.functionId = functionId := by
  simp [versionsOf, Table.mem_rows]

theorem version_eq_of_number {db : Database} {v w : FunctionVersion} (hv : v ∈ db.versions)
    (hw : w ∈ db.versions) (hf : v.functionId = w.functionId)
    (hn : v.versionNumber = w.versionNumber) : v = w :=
  Table.eq_of_uniq hv hw (x := (w.functionId, w.versionNumber))
    (by simp [FunctionVersion.functionNumber, hf, hn]) rfl

/-- The next number after a row has been added. -/
theorem getNextVersionNumber_insert {db db' : Database} {v : FunctionVersion}
    (h : db.versions.insert v = .ok db'.versions) (functionId : UUID) :
    db'.getNextVersionNumber functionId =
      if v.functionId = functionId then
        max (db.getNextVersionNumber functionId) (v.versionNumber + 1)
      else db.getNextVersionNumber functionId := by
  unfold getNextVersionNumber versionsOf
  rw [Table.insert_rows h, List.filter_append, List.map_append, List.foldl_append]
  by_cases hf : v.functionId = functionId
  · simp [hf, Nat.add_max_add_right]
  · simp [hf]

end Database

/-- The service with its two directories, as `__init__` resolves them. -/
structure LocalPackageStorageService where
  workspaceRoot : PosixPath
  packageStorageDir : PosixPath
  namelist : List UInt8 → Except PyException (List String)
  sha256 : List UInt8 → String
  root_resolved : workspaceRoot.root = .slash ∧ PosixPath.up ∉ workspaceRoot.parts
  dir_absolute : packageStorageDir.isAbsolute

namespace LocalPackageStorageService

variable (x : LocalPackageStorageService)

/-- `handler.rsplit(".", 1)[0].replace(".", "/") + ".py"`. -/
def expectedModulePath (handler : String) : String :=
  let cs := handler.toList
  let front := if '.' ∈ cs then ((cs.reverse.dropWhile (· ≠ '.')).drop 1).reverse else cs
  String.ofList (front.map (fun c => if c = '.' then '/' else c) ++ ".py".toList)

/-- `validate_safe_zip_paths` raises for one of the names. -/
def hasUnsafePath (names : List String) : Bool :=
  names.any fun name =>
    let path := PosixPath.parse name
    decide (path.isAbsolute ∨ PosixPath.up ∈ path.parts)

def validatePackage (contents : List UInt8) (handler : String) : Except RegistryError Unit :=
  if contents = [] then .error (.packageValidation "Package file is empty")
  else
    match x.namelist contents with
    | .error e =>
      if e.className = "BadZipFile" then
        .error (.packageValidation "Package file must be a valid zip archive")
      else .error (.raised e)
    | .ok names =>
      let expected := expectedModulePath handler
      if hasUnsafePath names then
        .error (.packageValidation "Package zip contains unsafe file paths")
      else if expected ∉ names then
        .error (.packageValidation s!"Package must contain handler module '{expected}'")
      else .ok ()

def packagePath (ownerId : UUID) (functionName : String) (versionNumber : Nat) : PosixPath :=
  (((x.packageStorageDir.join (.parse ownerId.str)).join (.parse functionName)).join
    (.parse s!"v{versionNumber}")).join (.parse "function.zip")

/-- `store_function_package`; the file system takes what it is given. -/
def storeFunctionPackage (files : Files (List UInt8)) (ownerId : UUID) (functionName : String)
    (versionNumber : Nat) (handler : String) (contents : List UInt8) :
    Except RegistryError (Files (List UInt8) × StoredPackage) :=
  match x.validatePackage contents handler with
  | .error e => .error e
  | .ok _ =>
    let path := x.packagePath ownerId functionName versionNumber
    .ok (files.write path contents, ⟨storageRef x.workspaceRoot path, x.sha256 contents⟩)

end LocalPackageStorageService

end Serverless.Model
