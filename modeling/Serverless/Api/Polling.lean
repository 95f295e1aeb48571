import Serverless.Api.Ledger
import Serverless.Api.Tokens

/-!
# Polling an invocation

What the API tells a client about an invocation, when it accepts it and whenever it is asked for it,
is a record of the row at that time. So the answers to a client that polls follow one another like
the records of the row, and an invocation that was shown once is shown again.
-/
namespace Serverless.Api

open Serverless.Library Serverless.Model Serverless.Tenancy Serverless.Ledger

variable {x : Server} {s t : State}

/-! ## What a reply shows -/

/-- The reply is about this record of an invocation: all of it, or its identifier and status. -/
def Reply.Shows (reply : Reply) (i : Invocation) : Prop :=
  reply = .invocation i ∨ ∃ statusUrl, reply = .accepted ⟨i.id, i.status, statusUrl⟩

def Exchange.Shows (e : Exchange) (i : Invocation) : Prop :=
  ∃ reply, e.response = .ok reply ∧ Reply.Shows reply i

theorem getInvocation_ok {db : Database} {ownerId invocationId : UUID} {i : Invocation}
    (h : db.getInvocation ownerId invocationId = .ok i) :
    i ∈ db.invocations ∧ i.id = invocationId ∧ i.ownerId = ownerId := by
  unfold Database.getInvocation at h
  split at h
  · cases h
  · rename_i hfound
    cases h
    have hp := List.find?_some hfound
    simp only [decide_eq_true_eq] at hp
    exact ⟨List.mem_of_find?_eq_some hfound, hp⟩

theorem getInvocation_mem {db : Database} {i : Invocation} (hi : i ∈ db.invocations) :
    db.getInvocation i.ownerId i.id = .ok i := by
  unfold Database.getInvocation
  cases hfound : db.invocations.rows.find? fun j => j.id = i.id ∧ j.ownerId = i.ownerId with
  | none =>
    have hno := List.find?_eq_none.mp hfound i hi
    simp at hno
  | some j =>
    have hp := List.find?_some hfound
    simp only [decide_eq_true_eq] at hp
    rw [Table.eq_of_key (List.mem_of_find?_eq_some hfound) hi hp.1]

/-- What a creation returns is a row of the owner afterwards. -/
theorem createInvocation_ok {db db' : Database} {request : CreateRequest} {invocationId dispatchId : UUID}
    {now : Time} {result : InvocationCreateResult}
    (h : createInvocation db request invocationId dispatchId now = (db', .ok result)) :
    result.invocation ∈ db'.invocations ∧ result.invocation.ownerId = request.ownerId := by
  have hexisting : ∀ {i : Invocation}, request.existing db = some i →
      i ∈ db.invocations ∧ i.ownerId = request.ownerId := by
    intro i hi
    obtain ⟨hm, hkey, hne⟩ := CreateRequest.existing_some hi
    refine ⟨hm, ?_⟩
    obtain ⟨key, hk⟩ := Option.ne_none_iff_exists'.mp hne
    have howner := hkey
    simp only [Invocation.ownerKey, CreateRequest.ownerKey, hk, Option.map_some, Option.map_eq_some_iff,
      Prod.mk.injEq] at howner
    obtain ⟨_, -, ho, -⟩ := howner
    exact ho
  unfold createInvocation at h
  split at h
  · rename_i i hi
    cases h
    exact hexisting hi
  split at h
  · cases h
  split at h
  · rename_i hc
    cases h
    obtain ⟨invocations, _, hi, -, rfl⟩ := insertInvocation_ok hc
    exact ⟨(Table.mem_insert hi).mpr (.inr rfl), rfl⟩
  · split at h
    · rename_i hi
      cases hi
    · cases h

theorem versionResponse_ok {p : Tables × Response} {reply : Reply}
    (h : (Tables.versionResponse p).2 = .ok reply) : ∃ row, reply = .version row := by
  obtain ⟨tables, response⟩ := p
  unfold Tables.versionResponse at h
  split at h
  · cases h
    exact ⟨_, rfl⟩
  · rename_i e _
    obtain ⟨f, hf⟩ := registryResponse_error e
    rw [hf] at h
    cases h
  · cases h

/-- The reply to a route that is not about an invocation. -/
theorem perform_other {ownerId : UUID} {now : Time} {route : Route} {reply : Reply}
    (h : (x.perform s ownerId now route).2 = .ok reply) :
    (∃ invocationId, route = .getInvocation invocationId) ∨
      (∃ functionName payload invocationId dispatchId,
        route = .invokeFunction functionName payload invocationId dispatchId) ∨
      ∀ i, ¬ Reply.Shows reply i := by
  have hversion : (∃ row, reply = .version row) → ∀ i, ¬ Reply.Shows reply i := by
    rintro ⟨row, rfl⟩ i (hi | ⟨_, hi⟩) <;> cases hi
  cases route with
  | getInvocation invocationId => exact .inl ⟨_, rfl⟩
  | invokeFunction => exact .inr (.inl ⟨_, _, _, _, rfl⟩)
  | createFunction payload functionId =>
    change (s.tables.createFunctionRoute ownerId payload functionId now).2 = .ok reply at h
    unfold Tables.createFunctionRoute at h
    split at h <;> cases h
    refine .inr (.inr ?_)
    rintro i (hi | ⟨_, hi⟩) <;> cases hi
  | createFunctionVersion functionName payload versionId =>
    exact .inr (.inr (hversion (versionResponse_ok h)))
  | uploadFunctionVersion functionName settings contents versionId =>
    change (s.tables.uploadFunctionVersionRoute ownerId x.storage s.files functionName settings.val
      contents versionId now).2.2 = .ok reply at h
    rcases uploadFunctionVersionRoute_cases s.tables x.storage s.files functionName settings.val
      contents versionId with ⟨f, hf⟩ | ⟨files, package, number, hf⟩
    · rw [hf] at h
      cases h
    · rw [hf] at h
      exact .inr (.inr (hversion (versionResponse_ok h)))
  | listFunctionVersions functionName =>
    change s.tables.listFunctionVersionsRoute ownerId functionName = .ok reply at h
    unfold Tables.listFunctionVersionsRoute at h
    split at h <;> cases h
    refine .inr (.inr ?_)
    rintro i (hi | ⟨_, hi⟩) <;> cases hi
  | getInvocationLogs invocationId =>
    change s.tables.getInvocationLogsRoute ownerId x.logStorage s.files invocationId = .ok reply at h
    unfold Tables.getInvocationLogsRoute at h
    split at h
    · cases h
    · split at h <;> cases h
      refine .inr (.inr ?_)
      rintro i (hi | ⟨_, hi⟩) <;> cases hi
  | listFunctions | getMetricsSummary | listWorkers =>
    cases h
    refine .inr (.inr ?_)
    rintro i (hi | ⟨_, hi⟩) <;> cases hi

/-- **What a route shows is a row of the owner that it is let through for.** -/
theorem perform_shows {ownerId : UUID} {now : Time} {route : Route} {reply : Reply} {i : Invocation}
    (h : (x.perform s ownerId now route).2 = .ok reply) (hshows : Reply.Shows reply i) :
    ∃ j ∈ (x.perform s ownerId now route).1.tables.db.invocations,
      Reply.Shows reply j ∧ j.id = i.id ∧ j.ownerId = ownerId := by
  rcases perform_other h with ⟨invocationId, rfl⟩ | ⟨functionName, payload, invocationId, dispatchId, rfl⟩ | hno
  · change s.tables.getInvocationRoute ownerId invocationId = .ok reply at h
    change ∃ j ∈ s.tables.db.invocations, _
    unfold Tables.getInvocationRoute at h
    split at h
    · rename_i k hk
      cases h
      obtain ⟨hm, -, ho⟩ := getInvocation_ok hk
      rcases hshows with hi | ⟨_, hi⟩
      · cases hi
        exact ⟨i, hm, .inl rfl, rfl, ho⟩
      · cases hi
    · cases h
  · change (s.tables.invokeFunctionRoute ownerId functionName payload invocationId dispatchId now).2 =
      .ok reply at h
    change ∃ j ∈ (s.tables.invokeFunctionRoute ownerId functionName payload invocationId dispatchId
      now).1.db.invocations, _
    rw [invokeFunctionRoute_fst]
    unfold Tables.invokeFunctionRoute at h
    dsimp only at h
    split at h
    · rename_i db result hcreate
      cases h
      obtain ⟨hm, ho⟩ := createInvocation_ok hcreate
      rcases hshows with hi | ⟨_, hi⟩
      · cases hi
      · injection hi with hi
        injection hi with hid hstatus
        refine ⟨result.invocation, ?_, .inr ⟨_, rfl⟩, hid, ho⟩
        change result.invocation ∈ (createInvocation _ _ _ _ _).1.invocations
        rw [hcreate]
        exact hm
    all_goals cases h
  · exact absurd hshows (hno i)

/-! ## The log -/

/-- Every invocation that a reply has shown is on record since, for an owner whom the request
authenticated. -/
def OnRecord (x : Server) (s : State) : Prop :=
  ∀ e ∈ s.log, ∀ i, e.Shows i → ∃ k, e.Shows k ∧ k.id = i.id ∧
    ∃ j ∈ s.tables.db.invocations, Later k j ∧ ∃ credentials route,
      e.request = .call credentials route ∧
      x.lib.getCurrentUserId x.settings s.tables.users credentials e.now = .ok j.ownerId

/-- What a new entry shows is a row now, of the owner whom its request names. -/
theorem step_shows {request : HttpRequest} {now : Time} {redis : RedisOutcome} {served : State × HttpResponse}
    (hserved : Served x s now redis request served) {reply : Reply} (hreply : served.2 = .ok reply)
    {i : Invocation} (hshows : Reply.Shows reply i) :
    ∃ j ∈ served.1.tables.db.invocations, Reply.Shows reply j ∧ j.id = i.id ∧ ∃ credentials route,
      request = .call credentials route ∧
      x.lib.getCurrentUserId x.settings s.tables.users credentials now = .ok j.ownerId := by
  cases hserved with
  | registered =>
    cases hreply
    rcases hshows with hi | ⟨_, hi⟩ <;> cases hi
  | notRegistered | unauthorized | limited => cases hreply
  | login payload jti =>
    unfold Server.login AuthLib.loginRoute at hreply
    split at hreply <;> cases hreply
    rcases hshows with hi | ⟨_, hi⟩ <;> cases hi
  | @performed credentials route ownerId hknown hthrottle =>
    obtain ⟨j, hj, hshow, hid, howner⟩ := perform_shows hreply hshows
    exact ⟨j, hj, hshow, hid, credentials, route, rfl, howner.symm ▸ hknown⟩

theorem OnRecord.step {e : Event} (h : OnRecord x s) (hr : Reachable (Api.step x) Api.init s)
    (hs : Api.step x s e = some t) : OnRecord x t := by
  have hold : ∀ entry ∈ s.log, ∀ i, entry.Shows i → ∃ k, entry.Shows k ∧ k.id = i.id ∧
      ∃ j ∈ t.tables.db.invocations, Later k j ∧ ∃ credentials route,
        entry.request = .call credentials route ∧
        x.lib.getCurrentUserId x.settings t.tables.users credentials entry.now = .ok j.ownerId := by
    intro entry hm i hi
    obtain ⟨k, hk, hid, j, hj, hlater, credentials, route, hrequest, hknown⟩ := h entry hm i hi
    obtain ⟨j', hj', hlater'⟩ := laterRecords hr hs j hj
    exact ⟨k, hk, hid, j', hj', hlater.trans hlater', credentials, route, hrequest,
      hlater'.owner.symm ▸ getCurrentUserId_kept hs hknown⟩
  intro entry hentry i hi
  rcases step_log hs with ⟨hlog, -⟩ | ⟨request, now, redis, served, -, hserved, ht⟩
  · exact hold entry (hlog ▸ hentry) i hi
  · have hmem : entry ∈ s.log ++ [⟨request, now, redis, x.caller s now request, served.2⟩] := by
      rw [ht] at hentry
      exact hentry
    rcases List.mem_append.mp hmem with hm | hm
    · exact hold entry hm i hi
    · obtain rfl := List.mem_singleton.mp hm
      obtain ⟨reply, hreply, hshows⟩ := hi
      obtain ⟨j, hj, hshow, hid, credentials, route, hrequest, hknown⟩ := step_shows hserved hreply hshows
      exact ⟨j, ⟨reply, hreply, hshow⟩, hid, j, by rw [ht]; exact hj, .refl j, credentials, route, hrequest,
        getCurrentUserId_kept hs hknown⟩

theorem onRecord_of_reachable (h : Reachable (step x) init s) : OnRecord x s := by
  refine h.invariant (fun s hi => ?_) fun hr hi hs => hi.step hr hs
  intro e he
  rw [hi.2.2.2.2] at he
  cases he

/-- The later exchange continues the story of every invocation that the earlier one has shown: what
it shows of it is a later record, and with the credentials of the earlier request it is shown again,
unless they have expired. -/
structure Follows (e e' : Exchange) : Prop where
  later : ∀ i j, e.Shows i → e'.Shows j → i.id = j.id →
    ∃ k l, e.Shows k ∧ e'.Shows l ∧ k.id = i.id ∧ Later k l
  again : ∀ i credentials route, e.Shows i → e.request = .call credentials route →
    e'.request = .call credentials (.getInvocation i.id) →
    (∃ j, e'.response = .ok (.invocation j) ∧ j.id = i.id) ∨
      e'.response = .error (.http (unauthorized "Invalid or expired access token"))

/-- **What a new entry adds to the story.** -/
theorem follows_served (hlib : x.lib.Documented) (hr : Reachable (step x) init s) {e : Exchange}
    (he : e ∈ s.log) {request : HttpRequest} {now : Time} {redis : RedisOutcome}
    {served : State × HttpResponse} (hserved : Served x s now redis request served)
    (hlater : LaterRecords s.ledger served.1.ledger) :
    Follows e ⟨request, now, redis, x.caller s now request, served.2⟩ := by
  refine ⟨fun i j hi hj hid => ?_, fun i credentials route hi hrequest hagain => ?_⟩
  · obtain ⟨k, hk, hki, row, hrow, hkrow, -⟩ := onRecord_of_reachable hr e he i hi
    obtain ⟨reply, hreply, hshows⟩ := hj
    obtain ⟨l, hl, hshow, hlj, -⟩ := step_shows hserved hreply hshows
    obtain ⟨row', hrow', hlater'⟩ := hlater row hrow
    have hsame : row' = l := Table.eq_of_key hrow' hl
      (((hkrow.trans hlater').id.trans (hki.trans hid)).trans hlj.symm)
    exact ⟨k, l, hk, ⟨reply, hreply, hshow⟩, hki, hsame ▸ hkrow.trans hlater'⟩
  · obtain ⟨k, -, hki, row, hrow, hkrow, credentials', route', hrequest', hknown⟩ :=
      onRecord_of_reachable hr e he i hi
    obtain ⟨rfl, rfl⟩ : credentials' = credentials ∧ route' = route := by
      have := hrequest'.symm.trans hrequest
      injection this with h₁ h₂
      exact ⟨h₁, h₂⟩
    change request = _ at hagain
    subst hagain
    have huser : s.tables.users.get row.ownerId ≠ none := by
      obtain ⟨_, -, -, -, huser⟩ := getCurrentUserId_ok.mp hknown
      exact huser
    cases hserved with
    | unauthorized credentials route hrefused =>
      rcases getCurrentUserId_again hlib hknown huser now with hok | herror
      · rw [hok] at hrefused
        cases hrefused
      · rw [herror] at hrefused
        cases hrefused
        exact .inr rfl
    | limited credentials route hown hthrottle => cases hthrottle
    | @performed _ _ ownerId hown hthrottle =>
      rcases getCurrentUserId_again hlib hknown huser now with hok | herror
      · obtain rfl := Except.ok.inj (hok.symm.trans hown)
        have hid : row.id = i.id := hkrow.id.trans hki
        refine .inl ⟨row, ?_, hid⟩
        change s.tables.getInvocationRoute row.ownerId i.id = _
        unfold Tables.getInvocationRoute
        rw [← hid, getInvocation_mem hrow]
      · rw [herror] at hown
        cases hown

/-- For every two exchanges of a run, the later one continues what the earlier one has said about an
invocation: between an accepted invocation and its polls, and between two polls, the record is the
same piece of work and only moves forward, a terminal record is the last one that is ever shown, and
an invocation that was accepted or shown is found by every later poll whose credentials are still
valid. -/
theorem polls_follow_the_invocation (hlib : x.lib.Documented) (h : Reachable (step x) init s) :
    s.log.Pairwise Follows := by
  refine h.invariant (I := fun s => s.log.Pairwise Follows) (fun s hi => ?_) fun hr hi hs => ?_
  · rw [hi.2.2.2.2]
    exact .nil
  · have hlater := laterRecords hr hs
    rcases step_log hs with ⟨hlog, -⟩ | ⟨request, now, redis, served, -, hserved, rfl⟩
    · rwa [hlog]
    · refine List.pairwise_append.mpr ⟨hi, List.pairwise_singleton _ _, fun e he e' he' => ?_⟩
      rw [List.mem_singleton.mp he']
      exact follows_served hlib hr he hserved hlater

/-- Ada deploys a function, invokes it and asks for the invocation. -/
theorem polls_follow_the_invocation_ada : ∃ s, Reachable (step demoServer) init s ∧
    s.log.map (statusCode ·.response) = [201, 200, 201, 201, 202, 200] ∧
    s.log.Pairwise Follows := by
  obtain ⟨s, hs, hp⟩ := reachable_of_replay (step demoServer) adaPolls
    (fun s => s.log.map (statusCode ·.response) = [201, 200, 201, 201, 202, 200]) init_start
    (by decide +kernel)
  exact ⟨s, hs, of_decide_eq_true hp, polls_follow_the_invocation plainAuth_documented hs⟩

end Serverless.Api
