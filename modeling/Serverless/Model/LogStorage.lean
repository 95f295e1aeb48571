import Serverless.Model.Runtime

/-!
# Reading logs

`LocalLogStorageService` of `backend/app/services/storage.py`. The storage holds files; a path that
names a directory is not told from one that names nothing.
-/
namespace Serverless.Model

open Serverless.Library PosixPath

/-- The service with its workspace, as `__init__` resolves it. -/
structure LocalLogStorageService where
  workspaceRoot : PosixPath
  root_resolved : workspaceRoot.root = .slash ∧ up ∉ workspaceRoot.parts

/-- `dir in path.parents`. -/
def InParents (dir path : PosixPath) : Prop :=
  dir.root = path.root ∧ dir.parts <+: path.parts ∧ dir.parts ≠ path.parts

instance (dir path : PosixPath) : Decidable (InParents dir path) :=
  inferInstanceAs (Decidable (_ ∧ _ ∧ _))

/-- What a text file opened without a `newline` argument turns its line ends into. -/
def universalNewlines : List Char → List Char
  | [] => []
  | '\r' :: '\n' :: cs => '\n' :: universalNewlines cs
  | '\r' :: cs => '\n' :: universalNewlines cs
  | c :: cs => c :: universalNewlines cs

/-- `path.read_text(encoding="utf-8", errors="replace")`. -/
def readText (data : List UInt8) : String := String.ofList (universalNewlines (Utf8.decode data))

/-- `LogFileNotFoundError`. -/
structure LogFileNotFound where
  logsRef : String
  deriving DecidableEq

namespace LocalLogStorageService

variable (x : LocalLogStorageService)

def resolveStorageRef (storageRef : String) : Except LogFileNotFound PosixPath :=
  let path := PosixPath.parse storageRef
  if path.isAbsolute then .ok path
  else
    let resolved := (x.workspaceRoot.join path).resolve
    if ¬ InParents x.workspaceRoot resolved ∧ resolved ≠ x.workspaceRoot then .error ⟨storageRef⟩
    else .ok resolved

def readLogs (files : Files (List UInt8)) (logsRef : Option String) : Except LogFileNotFound String :=
  match logsRef with
  | none => .ok ""
  | some logsRef =>
    match x.resolveStorageRef logsRef with
    | .error e => .error e
    | .ok logPath =>
      match files.read logPath with
      | none => .error ⟨logsRef⟩
      | some data => .ok (readText data)

end LocalLogStorageService

end Serverless.Model
