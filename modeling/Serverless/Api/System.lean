import Serverless.Ledger.System
import Serverless.Limiter.Guarantees
import Serverless.Model.Api

/-!
# The API in operation

Requests of any clients, answered one after another, while the rest of the platform works on the
same tables and files. A request is authenticated first; an invocation then passes the rate limiter,
on a key of its owner's. The log of requests and responses is history: no step reads it.
-/
namespace Serverless.Api

open Serverless.Library Serverless.Model

/-- How the API is deployed. -/
structure Server where
  lib : AuthLib
  settings : AuthSettings
  collation : LinearOrder String
  limiter : RedisTokenBucketRateLimiter
  storage : LocalPackageStorageService
  logStorage : LocalLogStorageService
  staleWorkerSeconds : Nat

/-- A route behind `get_current_user_id`, with its validated body and the identifiers and further
clock readings that it may draw. -/
inductive Route where
  | createFunction (payload : FunctionCreate) (functionId : UUID)
  | listFunctions
  | createFunctionVersion (functionName : String) (payload : { p : FunctionVersionCreate // p.Valid })
      (versionId : UUID)
  | uploadFunctionVersion (functionName : String) (settings : { v : VersionSettings // v.Valid })
      (contents : List UInt8) (versionId : UUID)
  | listFunctionVersions (functionName : String)
  | invokeFunction (functionName : String) (payload : InvocationCreate) (invocationId dispatchId : UUID)
  | getInvocation (invocationId : UUID)
  | getInvocationLogs (invocationId : UUID)
  | getMetricsSummary (workersNow : Time)
  | listWorkers

inductive HttpRequest where
  | register (payload : RegisterRequest) (drawn : List UInt8) (userId : UUID)
  | login (payload : LoginRequest) (jti : UUID)
  | call (credentials : Option HTTPAuthorizationCredentials) (route : Route)

/-- What becomes of the script that a request sends to Redis, which runs it at a time in
milliseconds if it gets it: the reply arrives or is lost. -/
inductive RedisOutcome where
  | replied (nowMs : Int)
  | lost (nowMs : Int)
  | unreachable

/-- A request with the clock that it read, the account that it was authenticated for, if any, and the
response to it. -/
structure Exchange where
  request : HttpRequest
  now : Time
  redis : RedisOutcome
  caller : Option UUID
  response : HttpResponse

structure State where
  tables : Tables
  files : Files (List UInt8)
  stream : List StreamMessage
  buckets : String → Option StoredBucket
  log : List Exchange

inductive Event where
  | request (request : HttpRequest) (now : Time) (redis : RedisOutcome)
  | platform (call : Ledger.Call)
  | write (path : PosixPath) (contents : List UInt8)

/-- The key that `enforce_invocation_rate_limit` counts an owner under. -/
def rateLimitKey (ownerId : UUID) : String :=
  let id := ownerId.str
  s!"rate-limit:invocations:user:{id}"

namespace Server

variable (x : Server)

/-- `enforce_invocation_rate_limit`, with the keys that it leaves. -/
def enforce (buckets : String → Option StoredBucket) (ownerId : UUID) (redis : RedisOutcome) :
    (String → Option StoredBucket) × Except EnforceError Unit :=
  let key := rateLimitKey ownerId
  let ran (nowMs : Int) :=
    Function.update buckets key
      (Limiter.stored .atDeadline (buckets key) (Limiter.unitCall x.limiter nowMs))
  match redis with
  | .replied nowMs => (ran nowMs, Limiter.enforceAt x.limiter (buckets key) nowMs)
  | .lost nowMs => (ran nowMs, enforceInvocationRateLimit x.limiter fun _ _ _ => none)
  | .unreachable => (buckets, enforceInvocationRateLimit x.limiter fun _ _ _ => none)

/-- A route, once its dependencies have let the request through. -/
def perform (s : State) (ownerId : UUID) (now : Time) : Route → State × HttpResponse
  | .createFunction payload functionId =>
    let (tables, response) := s.tables.createFunctionRoute ownerId payload functionId now
    ({ s with tables := tables }, response)
  | .listFunctions => (s, s.tables.listFunctionsRoute ownerId x.collation)
  | .createFunctionVersion functionName payload versionId =>
    let (tables, response) :=
      s.tables.createFunctionVersionRoute ownerId functionName payload.val versionId now
    ({ s with tables := tables }, response)
  | .uploadFunctionVersion functionName settings contents versionId =>
    let (tables, files, response) := s.tables.uploadFunctionVersionRoute ownerId x.storage s.files
      functionName settings.val contents versionId now
    ({ s with tables := tables, files := files }, response)
  | .listFunctionVersions functionName => (s, s.tables.listFunctionVersionsRoute ownerId functionName)
  | .invokeFunction functionName payload invocationId dispatchId =>
    let (tables, response) :=
      s.tables.invokeFunctionRoute ownerId functionName payload invocationId dispatchId now
    ({ s with tables := tables }, response)
  | .getInvocation invocationId => (s, s.tables.getInvocationRoute ownerId invocationId)
  | .getInvocationLogs invocationId =>
    (s, s.tables.getInvocationLogsRoute ownerId x.logStorage s.files invocationId)
  | .getMetricsSummary workersNow =>
    (s, s.tables.getMetricsSummaryRoute ownerId x.staleWorkerSeconds now workersNow)
  | .listWorkers => (s, s.tables.listWorkersRoute x.collation x.staleWorkerSeconds now)

/-- Only the invoke route depends on the rate limiter. -/
def throttle (s : State) (ownerId : UUID) (redis : RedisOutcome) :
    Route → State × Except EnforceError Unit
  | .invokeFunction .. =>
    let (buckets, decision) := x.enforce s.buckets ownerId redis
    ({ s with buckets := buckets }, decision)
  | .createFunction .. | .listFunctions | .createFunctionVersion .. | .uploadFunctionVersion ..
  | .listFunctionVersions _ | .getInvocation _ | .getInvocationLogs _ | .getMetricsSummary _
  | .listWorkers => (s, .ok ())

def serve (s : State) (now : Time) (redis : RedisOutcome) : HttpRequest → State × HttpResponse
  | .register payload drawn userId =>
    let (users, response) :=
      x.lib.registerRoute x.settings s.tables.users payload drawn userId now
    ({ s with tables := { s.tables with users := users } }, response)
  | .login payload jti => (s, x.lib.loginRoute x.settings s.tables.users payload jti now)
  | .call credentials route =>
    match x.lib.getCurrentUserId x.settings s.tables.users credentials now with
    | .error error => (s, .error (.http error))
    | .ok ownerId =>
      match x.throttle s ownerId redis route with
      | (s, .error (.http error)) => (s, .error (.http error))
      | (s, .error (.uncaught _)) => (s, .error .uncaught)
      | (s, .ok ()) => x.perform s ownerId now route

/-- The account that a request is authenticated for. -/
def caller (s : State) (now : Time) : HttpRequest → Option UUID
  | .register .. | .login .. => none
  | .call credentials _ =>
    (x.lib.getCurrentUserId x.settings s.tables.users credentials now).toOption

/-- `POST /auth/login` in a state. -/
def login (s : State) (payload : LoginRequest) (jti : UUID) (now : Time) : HttpResponse :=
  x.lib.loginRoute x.settings s.tables.users payload jti now

end Server

/-- Functions, versions and invocations are created by requests only. -/
def isPlatform : Ledger.Call → Bool
  | .createFunction _ | .createFunctionVersion _ | .createInvocation .. => false
  | .dispatchPending .. | .markRunning .. | .markFinished .. | .recoverStaleWorkers ..
  | .registerWorker .. | .recordHeartbeat .. | .markOffline .. | .markWorkersOffline _ => true

def step (x : Server) (s : State) : Event → Option State
  | .request request now redis =>
    let (t, response) := x.serve s now redis request
    some { t with log := s.log ++ [⟨request, now, redis, x.caller s now request, response⟩] }
  | .platform call =>
    if isPlatform call then
      (Ledger.step ⟨s.tables.db, s.stream⟩ call).map fun ledger =>
        { s with tables := { s.tables with db := ledger.db }, stream := ledger.stream }
    else none
  | .write path contents => some { s with files := s.files.write path contents }

/-- A platform without accounts, functions and invocations. -/
def init (s : State) : Prop :=
  s.tables.users = .empty ∧ s.tables.db = .fresh .empty .empty ∧ s.stream = [] ∧
    s.buckets = (fun _ => none) ∧ s.log = []

end Serverless.Api
