import Serverless.Api.System
import Serverless.Tenancy.NonInterference

/-!
# What a request does

A route that is let through inserts rows of the owner it is authenticated for, or nothing; a route
that fails inserts nothing. `Served` lists all that can become of a request, and every invariant of
the API is a case analysis on it.
-/
namespace Serverless.Api

open Serverless.Library Serverless.Model Serverless.Tenancy

/-- The parts of a registration that was answered with an account. -/
structure Registration where
  payload : RegisterRequest
  drawn : List UInt8
  userId : UUID

namespace Server

variable (x : Server)

/-- The hash that a registration stores. -/
def hashOf (r : Registration) : String :=
  (x.lib.hashPassword r.payload.password x.settings.passwordBcryptRounds r.drawn).toOption.getD ""

/-- The row that a registration inserts. -/
def row (r : Registration) : User := ⟨r.userId, r.payload.email, x.hashOf r⟩

end Server

variable {x : Server} {s : State} {ownerId : UUID} {now : Time}

/-! ## The routes -/

/-- Turning an answer into a response leaves the tables as the call left them. -/
theorem versionResponse_fst (p : Tables × Response) : (Tables.versionResponse p).1 = p.1 := by
  obtain ⟨tables, response⟩ := p
  unfold Tables.versionResponse
  split <;> simp_all

theorem createFunctionRoute_fst (tables : Tables) (payload : FunctionCreate) (functionId : UUID) :
    (tables.createFunctionRoute ownerId payload functionId now).1 =
      (tables.createFunction ownerId payload.name functionId now).1 := by
  unfold Tables.createFunctionRoute
  split <;> simp_all

theorem invokeFunctionRoute_fst (tables : Tables) (functionName : String) (payload : InvocationCreate)
    (invocationId dispatchId : UUID) :
    (tables.invokeFunctionRoute ownerId functionName payload invocationId dispatchId now).1 =
      { tables with
        db := (createInvocation tables.db ⟨ownerId, functionName, payload.payload,
          payload.idempotencyKey, payload.versionNumber⟩ invocationId dispatchId now).1 } := by
  unfold Tables.invokeFunctionRoute
  dsimp only
  split <;> simp_all

theorem registryResponse_error (e : RegistryError) : ∃ f, Tables.registryResponse e = .error f := by
  cases e <;> exact ⟨_, rfl⟩

/-- An upload ends before the insert of its version, or with it. -/
theorem uploadFunctionVersionRoute_cases (tables : Tables) (storage : LocalPackageStorageService)
    (files : Files (List UInt8)) (functionName : String) (settings : VersionSettings)
    (contents : List UInt8) (versionId : UUID) :
    (∃ f, tables.uploadFunctionVersionRoute ownerId storage files functionName settings contents
        versionId now = (tables, files, .error f)) ∨
    ∃ files' package number, tables.uploadFunctionVersionRoute ownerId storage files functionName
        settings contents versionId now =
      ((Tables.versionResponse (tables.createFunctionVersion ownerId functionName settings package
          (some number) versionId now)).1, files',
        (Tables.versionResponse (tables.createFunctionVersion ownerId functionName settings package
          (some number) versionId now)).2) := by
  unfold Tables.uploadFunctionVersionRoute
  split
  · split
    · rename_i e _
      obtain ⟨f, hf⟩ := registryResponse_error e
      exact .inl ⟨f, by rw [hf]⟩
    · exact .inr ⟨_, _, _, rfl⟩
  · rename_i e _
    obtain ⟨f, hf⟩ := registryResponse_error e
    exact .inl ⟨f, by rw [hf]⟩
  · exact .inl ⟨_, rfl⟩

/-! ## What a route writes -/

/-- The identifiers that a route draws. -/
def Route.newRows : Route → List NewRow
  | .createFunction _ functionId => [.function functionId]
  | .createFunctionVersion _ _ versionId => [.version versionId]
  | .uploadFunctionVersion _ _ _ versionId => [.version versionId]
  | .invokeFunction _ _ invocationId dispatchId => [.invocation invocationId, .dispatch dispatchId]
  | .listFunctions | .listFunctionVersions _ | .getInvocation _ | .getInvocationLogs _
  | .getMetricsSummary _ | .listWorkers => []

/-- **A route writes rows of its owner, or nothing.** -/
theorem perform_writes (x : Server) (s : State) (ownerId : UUID) (now : Time) (route : Route) :
    Writes s.tables ownerId route.newRows (x.perform s ownerId now route).1.tables := by
  have hversion := fun functionName settings package number versionId =>
    serve_writes x.collation s.tables ownerId
      (.createFunctionVersion functionName settings package number versionId now)
  cases route with
  | createFunction payload functionId =>
    show Writes _ _ _ (s.tables.createFunctionRoute ownerId payload functionId now).1
    rw [createFunctionRoute_fst]
    exact serve_writes x.collation s.tables ownerId (.createFunction payload.name functionId now)
  | createFunctionVersion functionName payload versionId =>
    show Writes _ _ _ (Tables.versionResponse _).1
    rw [versionResponse_fst]
    exact hversion _ _ _ _ _
  | uploadFunctionVersion functionName settings contents versionId =>
    show Writes _ _ _ (s.tables.uploadFunctionVersionRoute ownerId x.storage s.files functionName
      settings.val contents versionId now).1
    rcases uploadFunctionVersionRoute_cases s.tables x.storage s.files functionName settings.val
      contents versionId with ⟨f, hf⟩ | ⟨files, package, number, hf⟩
    · rw [hf]
      exact .nothing _
    · rw [hf, versionResponse_fst]
      exact hversion _ _ _ _ _
  | invokeFunction functionName payload invocationId dispatchId =>
    show Writes _ _ _ (s.tables.invokeFunctionRoute ownerId functionName payload invocationId
      dispatchId now).1
    rw [invokeFunctionRoute_fst]
    exact serve_writes x.collation s.tables ownerId (.createInvocation functionName payload.payload
      payload.idempotencyKey payload.versionNumber invocationId dispatchId now)
  | listFunctions | listFunctionVersions | getInvocation | getInvocationLogs | getMetricsSummary
  | listWorkers => exact .nothing _

theorem createFunctionVersion_error {tables : Tables} {functionName : String}
    {settings : VersionSettings} {package : StoredPackage} {number : Option Nat} {versionId : UUID}
    {f : Failure} (h : (Tables.versionResponse (tables.createFunctionVersion ownerId functionName
      settings package number versionId now)).2 = .error f) :
    (Tables.versionResponse (tables.createFunctionVersion ownerId functionName settings package number
      versionId now)).1 = tables := by
  rw [versionResponse_fst]
  unfold Tables.createFunctionVersion at h ⊢
  split
  · rfl
  · rename_i function hfunction
    simp only [hfunction] at h
    dsimp only at h ⊢
    split
    · rfl
    · rename_i db hdb
      simp [hdb, Tables.versionResponse] at h

theorem createFunctionRoute_error {tables : Tables} {payload : FunctionCreate} {functionId : UUID}
    {f : Failure} (h : (tables.createFunctionRoute ownerId payload functionId now).2 = .error f) :
    (tables.createFunctionRoute ownerId payload functionId now).1 = tables := by
  rw [createFunctionRoute_fst]
  unfold Tables.createFunctionRoute Tables.createFunction at h
  unfold Tables.createFunction
  split
  · rfl
  · rename_i users husers
    simp only [husers] at h
    split
    · rfl
    · rename_i db function hdb
      simp [hdb] at h

theorem invokeFunctionRoute_error {tables : Tables} {functionName : String}
    {payload : InvocationCreate} {invocationId dispatchId : UUID} {f : Failure}
    (h : (tables.invokeFunctionRoute ownerId functionName payload invocationId dispatchId now).2 =
      .error f) :
    (tables.invokeFunctionRoute ownerId functionName payload invocationId dispatchId now).1 = tables := by
  rw [invokeFunctionRoute_fst]
  unfold Tables.invokeFunctionRoute at h
  dsimp only at h
  unfold createInvocation at h ⊢
  split
  · rfl
  · rename_i hexisting
    simp only [hexisting] at h
    split
    · rfl
    · rename_i version hversion
      simp only [hversion] at h
      split
      · rename_i db hinsert
        simp [hinsert] at h
      · split <;> rfl

/-- **A route that fails leaves the tables as they were.** -/
theorem perform_error {route : Route} {f : Failure} (h : (x.perform s ownerId now route).2 = .error f) :
    (x.perform s ownerId now route).1.tables = s.tables := by
  cases route with
  | createFunction payload functionId => exact createFunctionRoute_error h
  | createFunctionVersion functionName payload versionId => exact createFunctionVersion_error h
  | uploadFunctionVersion functionName settings contents versionId =>
    show (s.tables.uploadFunctionVersionRoute ownerId x.storage s.files functionName settings.val
      contents versionId now).1 = s.tables
    have hresponse : (s.tables.uploadFunctionVersionRoute ownerId x.storage s.files functionName
      settings.val contents versionId now).2.2 = .error f := h
    rcases uploadFunctionVersionRoute_cases s.tables x.storage s.files functionName settings.val
      contents versionId with ⟨g, hg⟩ | ⟨files, package, number, hg⟩
    · rw [hg]
    · rw [hg] at hresponse ⊢
      exact createFunctionVersion_error hresponse
  | invokeFunction functionName payload invocationId dispatchId => exact invokeFunctionRoute_error h
  | listFunctions | listFunctionVersions | getInvocation | getInvocationLogs | getMetricsSummary
  | listWorkers => rfl

/-- What no route touches. -/
theorem perform_frame (x : Server) (s : State) (ownerId : UUID) (now : Time) (route : Route) :
    (x.perform s ownerId now route).1.stream = s.stream ∧
      (x.perform s ownerId now route).1.buckets = s.buckets ∧
      (x.perform s ownerId now route).1.log = s.log := by
  cases route <;> exact ⟨rfl, rfl, rfl⟩

/-- Only the keys of the limiter may change before a route is let through. -/
theorem throttle_frame (s : State) (ownerId : UUID) (redis : RedisOutcome) (route : Route) :
    (x.throttle s ownerId redis route).1 =
      { s with buckets := (x.throttle s ownerId redis route).1.buckets } := by
  cases route <;> rfl

/-! ## What becomes of a request -/

/-- A password that has passed the schema is hashed. -/
theorem hashPassword_eq (r : Registration) :
    x.lib.hashPassword r.payload.password x.settings.passwordBcryptRounds r.drawn = .ok (x.hashOf r) := by
  unfold Server.hashOf AuthLib.hashPassword
  have hbytes := r.payload.password_bytes
  cases hb : passwordBytes r.payload.password with
  | error message => simp [hb, Except.isOk, Except.toBool] at hbytes
  | ok encoded => rfl

/-- What leaves the route when its dependency raises. -/
def failureOf : EnforceError → Failure
  | .http error => .http error
  | .uncaught _ => .uncaught

inductive Served (x : Server) (s : State) (now : Time) (redis : RedisOutcome) :
    HttpRequest → State × HttpResponse → Prop where
  | registered {r : Registration} {users : Users} (hfits : FitsVarchar 320 r.payload.email)
      (hinsert : s.tables.users.insert (x.row r) = .ok users) :
      Served x s now redis (.register r.payload r.drawn r.userId)
        ({ s with tables := { s.tables with users := users } },
          .ok (.user ⟨r.userId, r.payload.email, now⟩))
  | notRegistered (r : Registration) (f : Failure) :
      Served x s now redis (.register r.payload r.drawn r.userId) (s, .error f)
  | login (payload : LoginRequest) (jti : UUID) :
      Served x s now redis (.login payload jti) (s, x.login s payload jti now)
  | unauthorized (credentials : Option HTTPAuthorizationCredentials) (route : Route)
      {error : HTTPException}
      (h : x.lib.getCurrentUserId x.settings s.tables.users credentials now = .error error) :
      Served x s now redis (.call credentials route) (s, .error (.http error))
  | limited (credentials : Option HTTPAuthorizationCredentials) (route : Route) {ownerId : UUID}
      (h : x.lib.getCurrentUserId x.settings s.tables.users credentials now = .ok ownerId)
      {error : EnforceError} (hthrottle : (x.throttle s ownerId redis route).2 = .error error) :
      Served x s now redis (.call credentials route)
        ((x.throttle s ownerId redis route).1, .error (failureOf error))
  | performed (credentials : Option HTTPAuthorizationCredentials) (route : Route) {ownerId : UUID}
      (h : x.lib.getCurrentUserId x.settings s.tables.users credentials now = .ok ownerId)
      (hthrottle : (x.throttle s ownerId redis route).2 = .ok ()) :
      Served x s now redis (.call credentials route)
        (x.perform (x.throttle s ownerId redis route).1 ownerId now route)

theorem serve_served (x : Server) (s : State) (now : Time) (redis : RedisOutcome)
    (request : HttpRequest) : Served x s now redis request (x.serve s now redis request) := by
  cases request with
  | register payload drawn userId =>
    let r : Registration := ⟨payload, drawn, userId⟩
    have hhash : x.lib.hashPassword payload.password x.settings.passwordBcryptRounds drawn =
      .ok (x.hashOf r) := hashPassword_eq r
    simp only [Server.serve, AuthLib.registerRoute, AuthLib.register, hhash]
    by_cases hfits : FitsVarchar 320 payload.email ∧ FitsVarchar 255 (x.hashOf r)
    · rw [if_pos hfits]
      cases hinsert : s.tables.users.insert ⟨userId, payload.email, x.hashOf r⟩ with
      | error violation => exact .notRegistered r _
      | ok users => exact .registered (r := r) hfits.1 hinsert
    · rw [if_neg hfits]
      exact .notRegistered r _
  | login payload jti => exact .login payload jti
  | call credentials route =>
    cases hknown : x.lib.getCurrentUserId x.settings s.tables.users credentials now with
    | error error =>
      simp only [Server.serve, hknown]
      exact .unauthorized credentials route hknown
    | ok ownerId =>
      have hlimited : ∀ error, (x.throttle s ownerId redis route).2 = .error error →
          Served x s now redis (.call credentials route)
            ((x.throttle s ownerId redis route).1, .error (failureOf error)) :=
        fun _ h => .limited credentials route hknown h
      have hperformed : (x.throttle s ownerId redis route).2 = .ok () →
          Served x s now redis (.call credentials route)
            (x.perform (x.throttle s ownerId redis route).1 ownerId now route) :=
        .performed credentials route hknown
      simp only [Server.serve, hknown]
      generalize x.throttle s ownerId redis route = admitted at hlimited hperformed ⊢
      obtain ⟨s', decision⟩ := admitted
      cases decision with
      | error error =>
        cases error with
        | http error => exact hlimited _ rfl
        | uncaught error => exact hlimited _ rfl
      | ok admitted => exact hperformed rfl

/-- A request leaves what has become of it, and an entry in the log. -/
theorem step_request {t : State} {request : HttpRequest} {redis : RedisOutcome}
    (h : step x s (.request request now redis) = some t) :
    ∃ served, Served x s now redis request served ∧
      t = { served.1 with log := s.log ++ [⟨request, now, redis, x.caller s now request, served.2⟩] } :=
  ⟨x.serve s now redis request, serve_served x s now redis request, (Option.some.inj h).symm⟩

/-- Any other event leaves the log and the keys alone. -/
theorem step_log {t : State} {e : Event} (h : step x s e = some t) :
    t.log = s.log ∧ t.buckets = s.buckets ∨ ∃ request now redis served,
      e = .request request now redis ∧ Served x s now redis request served ∧
      t = { served.1 with log := s.log ++ [⟨request, now, redis, x.caller s now request, served.2⟩] } := by
  cases e with
  | platform call =>
    simp only [step, Option.ite_none_right_eq_some, Option.map_eq_some_iff] at h
    obtain ⟨-, ledger, -, rfl⟩ := h
    exact .inl ⟨rfl, rfl⟩
  | write path contents =>
    cases h
    exact .inl ⟨rfl, rfl⟩
  | request request now redis =>
    obtain ⟨served, hserved, ht⟩ := step_request h
    exact .inr ⟨request, now, redis, served, rfl, hserved, ht⟩

end Serverless.Api
