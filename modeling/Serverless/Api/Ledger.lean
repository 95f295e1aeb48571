import Serverless.Api.Routes
import Serverless.Ledger.Life

/-!
# The ledger under the API

Seen from the rows and the stream, every event of the API is one complete call of the platform: a
request is the call it makes, or a call that does nothing. So everything that holds of the ledger
holds under the API, and a client that polls an invocation sees it move forward.
-/
namespace Serverless.Api

open Serverless.Library Serverless.Model Serverless.Tenancy

variable {x : Server} {s t : State}

/-- The rows and the stream of the platform. -/
def State.ledger (s : State) : Ledger.State := ⟨s.tables.db, s.stream⟩

/-- No worker goes offline: the call that does nothing. -/
theorem ledger_nothing (l : Ledger.State) : Ledger.step l (.markWorkersOffline []) = some l := by
  simp only [Ledger.step, markWorkersOffline, Table.flush_nil]

theorem perform_ledger (x : Server) (s : State) (ownerId : UUID) (now : Time) (route : Route) :
    ∃ c, Ledger.step s.ledger c = some (x.perform s ownerId now route).1.ledger := by
  have hstream := (perform_frame x s ownerId now route).1
  have hdb : ∀ c, Ledger.step s.ledger c = some ⟨(x.perform s ownerId now route).1.tables.db, s.stream⟩ →
      ∃ c, Ledger.step s.ledger c = some (x.perform s ownerId now route).1.ledger := by
    intro c hc
    exact ⟨c, hc.trans (by rw [State.ledger, hstream])⟩
  by_cases hinvoke : ∃ functionName payload invocationId dispatchId,
      route = .invokeFunction functionName payload invocationId dispatchId
  · obtain ⟨functionName, payload, invocationId, dispatchId, rfl⟩ := hinvoke
    refine hdb (.createInvocation ⟨ownerId, functionName, payload.payload, payload.idempotencyKey,
      payload.versionNumber⟩ invocationId dispatchId now) ?_
    change _ = some (Ledger.State.mk (s.tables.invokeFunctionRoute ownerId functionName payload
      invocationId dispatchId now).1.db s.stream)
    rw [invokeFunctionRoute_fst]
    rfl
  · have hwrites := perform_writes x s ownerId now route
    generalize (x.perform s ownerId now route).1.tables = tables at hwrites hdb
    generalize hids : route.newRows = ids at hwrites
    cases hwrites with
    | nothing => exact hdb _ (ledger_nothing s.ledger)
    | @function f functions users hinsert howner husers now =>
      refine hdb (.createFunction f) ?_
      simp only [Ledger.step, State.ledger, hinsert, Except.map, Ledger.orUnchanged]
    | @version v versions hinsert howner now =>
      refine hdb (.createFunctionVersion v) ?_
      simp only [Ledger.step, State.ledger, hinsert, Except.map, Ledger.orUnchanged]
    | invocation =>
      cases route <;> simp [Route.newRows] at hids
      exact absurd ⟨_, _, _, _, rfl⟩ hinvoke

/-- **Every event of the API is one call of the platform.** -/
theorem step_ledger {e : Event} (h : step x s e = some t) : ∃ c, Ledger.step s.ledger c = some t.ledger := by
  cases e with
  | platform call =>
    simp only [step, Option.ite_none_right_eq_some, Option.map_eq_some_iff] at h
    obtain ⟨-, ledger, hledger, rfl⟩ := h
    exact ⟨call, hledger⟩
  | write path contents =>
    cases h
    exact ⟨_, ledger_nothing s.ledger⟩
  | request request now redis =>
    obtain ⟨served, hserved, rfl⟩ := step_request h
    cases hserved with
    | registered | notRegistered | login | unauthorized => exact ⟨_, ledger_nothing s.ledger⟩
    | limited credentials route =>
      rw [throttle_frame]
      exact ⟨_, ledger_nothing s.ledger⟩
    | @performed credentials route ownerId =>
      obtain ⟨c, hc⟩ := perform_ledger x (x.throttle s ownerId redis route).1 ownerId now route
      refine ⟨c, ?_⟩
      rw [throttle_frame] at hc ⊢
      exact hc

theorem reachable_ledger (h : Reachable (step x) init s) :
    Reachable Ledger.step Ledger.init s.ledger := by
  refine h.project State.ledger ?_ fun _ hs => ?_
  · rintro s ⟨-, hdb, hstream, -⟩
    exact ⟨.empty, .empty, by rw [State.ledger, hdb, hstream]⟩
  · obtain ⟨c, hc⟩ := step_ledger hs
    exact ⟨c, trivial, hc⟩

theorem laterRecords {e : Event} (h : Reachable (step x) init s) (hs : step x s e = some t) :
    Ledger.LaterRecords s.ledger t.ledger := by
  obtain ⟨c, hc⟩ := step_ledger hs
  exact Ledger.laterRecords_step (reachable_ledger h) hc

end Serverless.Api
