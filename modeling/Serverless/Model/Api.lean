import Serverless.Model.Accounts
import Serverless.Model.LogStorage

/-!
# The routes of the API

The route functions of `backend/app/api/routes`, on what their dependencies give them and on bodies
that have passed the request schemas. A route turns the exceptions that it names into responses; any
other exception leaves it, and the server answers with status 500.
-/
namespace Serverless.Model

open Serverless.Library

structure UserRead where
  id : UUID
  email : String
  createdAt : Time

structure TokenResponse where
  accessToken : String
  tokenType : String := "bearer"
  expiresIn : Nat

structure InvocationAccepted where
  invocationId : UUID
  status : InvocationStatus
  statusUrl : String

/-- The body of a response. -/
inductive Reply where
  | user (row : UserRead)
  | token (response : TokenResponse)
  | function (row : FunctionRead)
  | functions (rows : List FunctionRead)
  | version (row : FunctionVersionRead)
  | versions (rows : List FunctionVersionRead)
  | accepted (response : InvocationAccepted)
  | invocation (row : Invocation)
  | logs (content : String)
  | summary (metrics : MetricsSummary)
  | workers (rows : List WorkerRead)

/-- What leaves a route instead of a reply. -/
inductive Failure where
  | http (error : HTTPException)
  | uncaught

abbrev HttpResponse := Except Failure Reply

/-- The status that each route declares for its reply. -/
def Reply.statusCode : Reply → Nat
  | .user _ | .function _ | .version _ => 201
  | .accepted _ => 202
  | .token _ | .functions _ | .versions _ | .invocation _ | .logs _ | .summary _ | .workers _ => 200

def statusCode : HttpResponse → Nat
  | .ok reply => reply.statusCode
  | .error (.http error) => error.statusCode
  | .error .uncaught => 500

/-- `raise HTTPException(...)`. -/
def raiseHttp (statusCode : Nat) (detail : String) : HttpResponse :=
  .error (.http { statusCode := statusCode, detail := detail })

/-! ## Request bodies -/

structure FunctionCreate where
  name : String
  name_valid : matchesFunctionName name = true

structure InvocationCreate where
  payload : JsonValue := .dict []
  idempotencyKey : Option String := none
  versionNumber : Option Nat := none
  key_length : ∀ key ∈ idempotencyKey, 1 ≤ key.length ∧ key.length ≤ 255
  version_pos : ∀ n ∈ versionNumber, 1 ≤ n

/-! ## `routes/auth.py` -/

namespace AuthLib

variable (lib : AuthLib) (settings : AuthSettings)

def registerRoute (users : Users) (payload : RegisterRequest) (drawn : List UInt8) (userId : UUID)
    (now : Time) : Users × HttpResponse :=
  match lib.register settings.passwordBcryptRounds users payload.email payload.password drawn userId with
  | (users, .ok user) => (users, .ok (.user ⟨user.id, user.email, now⟩))
  | (users, .error .emailAlreadyRegistered) => (users, raiseHttp 409 "Email is already registered")
  | (users, .error _) => (users, .error .uncaught)

def loginRoute (users : Users) (payload : LoginRequest) (jti : UUID) (now : Time) : HttpResponse :=
  match lib.authenticate users payload.email payload.password with
  | .ok user =>
    .ok (.token
      { accessToken := lib.createAccessToken settings user.id now jti
        expiresIn := settings.accessTokenExpireMinutes * 60 })
  | .error .invalidCredentials => .error (.http (unauthorized "Invalid email or password"))
  | .error _ => .error .uncaught

end AuthLib

/-! ## `routes/functions.py` -/

namespace Tables

variable (s : Tables) (ownerId : UUID)

def createFunctionRoute (payload : FunctionCreate) (functionId : UUID) (now : Time) :
    Tables × HttpResponse :=
  match s.createFunction ownerId payload.name functionId now with
  | (s, .ok (.function row)) => (s, .ok (.function row))
  | (s, .error (.registry (.functionNameAlreadyExists name))) =>
    (s, raiseHttp 409 s!"Function '{name}' already exists")
  | (s, _) => (s, .error .uncaught)

def listFunctionsRoute (collation : LinearOrder String) : HttpResponse :=
  .ok (.functions (s.listFunctions ownerId collation))

/-- The exceptions that the version routes name, as they answer them. -/
def registryResponse : RegistryError → HttpResponse
  | .functionNotFound name => raiseHttp 404 s!"Function '{name}' not found"
  | .functionVersionConflict functionName =>
    raiseHttp 409 s!"Could not allocate next version for function '{functionName}'"
  | .packageValidation detail => raiseHttp 400 detail
  | .functionNameAlreadyExists _ | .raised _ => .error .uncaught

/-- `create_function_version` of the registry, answered. -/
def versionResponse : Tables × Response → Tables × HttpResponse
  | (s, .ok (.version row)) => (s, .ok (.version row))
  | (s, .error (.registry error)) => (s, registryResponse error)
  | (s, _) => (s, .error .uncaught)

def createFunctionVersionRoute (functionName : String) (payload : FunctionVersionCreate)
    (versionId : UUID) (now : Time) : Tables × HttpResponse :=
  versionResponse (s.createFunctionVersion ownerId functionName payload.settings payload.package none
    versionId now)

/-- The package stays on disk whatever becomes of the row. -/
def uploadFunctionVersionRoute (storage : LocalPackageStorageService) (files : Files (List UInt8))
    (functionName : String) (settings : VersionSettings) (contents : List UInt8) (versionId : UUID)
    (now : Time) : Tables × Files (List UInt8) × HttpResponse :=
  match s.getNextFunctionVersionNumber ownerId functionName with
  | .ok (.number nextVersionNumber) =>
    match storage.storeFunctionPackage files ownerId functionName nextVersionNumber settings.handler
        contents with
    | .error error => (s, files, registryResponse error)
    | .ok (files, storedPackage) =>
      let (s, response) := versionResponse (s.createFunctionVersion ownerId functionName settings
        storedPackage (some nextVersionNumber) versionId now)
      (s, files, response)
  | .error (.registry error) => (s, files, registryResponse error)
  | _ => (s, files, .error .uncaught)

def listFunctionVersionsRoute (functionName : String) : HttpResponse :=
  match s.listFunctionVersions ownerId functionName with
  | .ok (.versions rows) => .ok (.versions rows)
  | .error (.registry (.functionNotFound name)) => raiseHttp 404 s!"Function '{name}' not found"
  | _ => .error .uncaught

def invokeFunctionRoute (functionName : String) (payload : InvocationCreate)
    (invocationId dispatchId : UUID) (now : Time) : Tables × HttpResponse :=
  let request : CreateRequest :=
    ⟨ownerId, functionName, payload.payload, payload.idempotencyKey, payload.versionNumber⟩
  match createInvocation s.db request invocationId dispatchId now with
  | (db, .ok result) =>
    let id := result.invocation.id.str
    ({ s with db := db }, .ok (.accepted
      { invocationId := result.invocation.id
        status := result.invocation.status
        statusUrl := s!"/invocations/{id}" }))
  | (db, .error (.functionNotFound name)) =>
    ({ s with db := db }, raiseHttp 404 s!"Function '{name}' not found")
  | (db, .error (.functionVersionNotFound functionName none)) =>
    ({ s with db := db }, raiseHttp 404 s!"Function '{functionName}' has no versions")
  | (db, .error (.functionVersionNotFound functionName (some versionNumber))) =>
    ({ s with db := db }, raiseHttp 404 s!"Function '{functionName}' version {versionNumber} not found")
  | (db, .error _) => ({ s with db := db }, .error .uncaught)

/-! ## `routes/invocations.py`, `routes/metrics.py` and `routes/workers.py` -/

def invocationNotFound (invocationId : UUID) : HttpResponse :=
  let id := invocationId.str
  raiseHttp 404 s!"Invocation '{id}' not found"

def getInvocationRoute (invocationId : UUID) : HttpResponse :=
  match s.db.getInvocation ownerId invocationId with
  | .ok invocation => .ok (.invocation invocation)
  | .error (.invocationNotFound invocationId) => invocationNotFound invocationId

def getInvocationLogsRoute (logStorage : LocalLogStorageService) (files : Files (List UInt8))
    (invocationId : UUID) : HttpResponse :=
  match s.db.getLatestLogsRef ownerId invocationId with
  | .error (.invocationNotFound invocationId) => invocationNotFound invocationId
  | .ok logsRef =>
    match logStorage.readLogs files logsRef with
    | .ok content => .ok (.logs content)
    | .error ⟨logsRef⟩ => raiseHttp 404 s!"Invocation logs '{logsRef}' not found"

def getMetricsSummaryRoute (staleWorkerSeconds : Nat) (now workersNow : Time) : HttpResponse :=
  .ok (.summary (s.db.getSummary ownerId staleWorkerSeconds now workersNow))

def listWorkersRoute (collation : LinearOrder String) (staleWorkerSeconds : Nat) (now : Time) :
    HttpResponse :=
  .ok (.workers (s.db.listWorkers collation staleWorkerSeconds now))

end Tables

end Serverless.Model
