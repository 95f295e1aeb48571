import Serverless.Api.Ledger
import Serverless.Api.Tokens
import Serverless.Library.Histories

/-!
# On whose behalf

Only the platform holds the key of its tokens, so a token that can be read was issued by a login.
Then every function, version and invocation goes back to a request that presented a token of its
owner, and that token to a login with the password of the owner's registration.
-/
namespace Serverless.Api

open Serverless.Library Serverless.Model Serverless.Tenancy

variable {x : Server} {s t : State} {ownerId : UUID} {row : NewRow}

/-- The row is there and belongs to the owner. Outbox rows are the platform's. -/
def Owns (db : Database) (ownerId : UUID) : NewRow → Prop
  | .function id => OwnsFunction db ownerId id
  | .version id => ∃ v ∈ db.versions, v.id = id ∧ OwnsFunction db ownerId v.functionId
  | .invocation id => OwnsInvocation db ownerId id
  | .dispatch _ => False

/-! ## Where a row comes from -/

theorem references_of_reachable (h : Reachable (step x) init s) : References s.tables.db := by
  have hrest : ∀ {s : State}, Reachable (step x) init s →
      (∀ v ∈ s.tables.db.versions, ∃ f ∈ s.tables.db.functions, f.id = v.functionId) →
      References s.tables.db := by
    intro s hs hversion
    have hinv := Ledger.inv_reachable (reachable_ledger hs)
    exact ⟨hversion, hinv.numbered.attemptOwner, hinv.numbered.dispatchOwner⟩
  refine hrest h (h.invariant (I := fun s => ∀ v ∈ s.tables.db.versions,
    ∃ f ∈ s.tables.db.functions, f.id = v.functionId) (fun s hi v hv => ?_) fun {s e t} hr hi hs => ?_)
  · rw [hi.2.1] at hv
    exact absurd hv (Table.not_mem_empty v)
  · cases e with
    | platform call =>
      simp only [step, Option.ite_none_right_eq_some, Option.map_eq_some_iff] at hs
      obtain ⟨hplatform, ledger, hledger, rfl⟩ := hs
      rcases Ledger.registry_step hledger with ⟨hf, hv⟩ | ⟨row, rfl, -⟩ | ⟨row, rfl, -⟩
      · simpa only [hf, hv] using hi
      · cases hplatform
      · cases hplatform
    | write path contents =>
      cases hs
      exact hi
    | request request now redis =>
      obtain ⟨served, hserved, rfl⟩ := step_request hs
      cases hserved with
      | registered | notRegistered | login | unauthorized => exact hi
      | limited =>
        rw [throttle_frame]
        exact hi
      | @performed credentials route ownerId =>
        have href := hrest hr hi
        have hwrites := perform_writes x (x.throttle s ownerId redis route).1 ownerId now route
        rw [throttle_frame] at hwrites ⊢
        exact (hwrites.references href).version

/-- **What an owner has after a write is old, or was drawn for the owner.** -/
theorem owns_of_writes {tables tables' : Tables} {other : UUID} {ids : List NewRow}
    (h : Writes tables other ids tables') (href : References tables.db) (howns : Owns tables'.db ownerId row) :
    Owns tables.db ownerId row ∨ ownerId = other ∧ row ∈ ids := by
  cases h with
  | nothing => exact .inl howns
  | @function f functions users hinsert howner husers now =>
    have hfunction : ∀ id, OwnsFunction { tables.db with functions := functions } ownerId id →
        OwnsFunction tables.db ownerId id ∨ id = f.id ∧ ownerId = other := by
      rintro id ⟨g, hg, hid, ho⟩
      rcases (Table.mem_insert hinsert).mp hg with hg | rfl
      · exact .inl ⟨g, hg, hid, ho⟩
      · exact .inr ⟨hid.symm, ho.symm.trans howner⟩
    cases row with
    | function id =>
      rcases hfunction id howns with hold | ⟨rfl, rfl⟩
      · exact .inl hold
      · exact .inr ⟨rfl, List.mem_singleton_self _⟩
    | version id =>
      obtain ⟨v, hv, hid, hown⟩ := howns
      refine .inl ⟨v, hv, hid, ?_⟩
      -- the function of an old version is an old function
      obtain ⟨g, hg, hgid⟩ := href.version v hv
      exact ⟨g, hg, hgid, OwnsFunction.owner hown ((Table.mem_insert hinsert).mpr (.inl hg)) hgid⟩
    | invocation id => exact .inl howns
    | dispatch id => exact howns.elim
  | @version v versions hinsert howner now =>
    cases row with
    | version id =>
      obtain ⟨w, hw, hid, hown⟩ := howns
      rcases (Table.mem_insert hinsert).mp hw with hw | rfl
      · exact .inl ⟨w, hw, hid, hown⟩
      · obtain ⟨f, hf, hfid, hfo⟩ := hown
        have hsame : f.ownerId = other := OwnsFunction.owner howner hf hfid
        exact .inr ⟨hfo.symm.trans hsame, hid ▸ List.mem_singleton_self _⟩
    | function id => exact .inl howns
    | invocation id => exact .inl howns
    | dispatch id => exact howns.elim
  | @invocation i d invocations dispatches hinvocation hdispatch howner hid =>
    cases row with
    | invocation id =>
      obtain ⟨j, hj, hjid, ho⟩ := howns
      rcases (Table.mem_insert hinvocation).mp hj with hj | rfl
      · exact .inl ⟨j, hj, hjid, ho⟩
      · exact .inr ⟨ho.symm.trans howner, hjid ▸ List.mem_cons_self⟩
    | function id => exact .inl howns
    | version id => exact .inl howns
    | dispatch id => exact howns.elim

/-- A complete call of the platform gives nobody a row. -/
theorem owns_of_platform {s t : Ledger.State} {c : Ledger.Call} (hc : isPlatform c = true)
    (h : Ledger.step s c = some t) (howns : Owns t.db ownerId row) : Owns s.db ownerId row := by
  have hregistry : t.db.functions = s.db.functions ∧ t.db.versions = s.db.versions := by
    rcases Ledger.registry_step h with heq | ⟨row, rfl, -⟩ | ⟨row, rfl, -⟩
    · exact heq
    · cases hc
    · cases hc
  cases row with
  | function id =>
    obtain ⟨f, hf, hrest⟩ := howns
    exact ⟨f, hregistry.1 ▸ hf, hrest⟩
  | version id =>
    obtain ⟨v, hv, hid, f, hf, hrest⟩ := howns
    exact ⟨v, hregistry.2 ▸ hv, hid, f, hregistry.1 ▸ hf, hrest⟩
  | invocation id =>
    obtain ⟨i, hi, hid, ho⟩ := howns
    rcases (Ledger.step_effect h).invocation_origin hi with
      ⟨j, hj, hsame⟩ | ⟨request, version, invocationId, dispatchId, now, rfl, -, -⟩
    · exact ⟨j, hj, hsame.id.symm.trans hid, hsame.owner.symm.trans ho⟩
    · cases hc
  | dispatch id => exact howns.elim

/-- A row that an event gives an owner was drawn by a request of the owner that succeeded. -/
theorem step_owns {e : Event} (href : References s.tables.db) (h : step x s e = some t)
    (howns : Owns t.tables.db ownerId row) :
    Owns s.tables.db ownerId row ∨ ∃ credentials route now redis reply,
      e = .request (.call credentials route) now redis ∧ row ∈ route.newRows ∧
      x.lib.getCurrentUserId x.settings s.tables.users credentials now = .ok ownerId ∧
      t.log = s.log ++ [⟨.call credentials route, now, redis, some ownerId, .ok reply⟩] := by
  cases e with
  | platform call =>
    simp only [step, Option.ite_none_right_eq_some, Option.map_eq_some_iff] at h
    obtain ⟨hplatform, ledger, hledger, rfl⟩ := h
    exact .inl (owns_of_platform hplatform hledger howns)
  | write path contents =>
    cases h
    exact .inl howns
  | request request now redis =>
    obtain ⟨served, hserved, rfl⟩ := step_request h
    cases hserved with
    | registered | notRegistered | login | unauthorized => exact .inl howns
    | limited =>
      rw [throttle_frame] at howns
      exact .inl howns
    | @performed credentials route other hknown hthrottle =>
      have htables : (x.throttle s other redis route).1.tables = s.tables := by rw [throttle_frame]
      cases hresponse : (x.perform (x.throttle s other redis route).1 other now route).2 with
      | error f =>
        have hkept := (perform_error hresponse).trans htables
        exact .inl (hkept ▸ howns)
      | ok reply =>
        have hwrites := perform_writes x (x.throttle s other redis route).1 other now route
        rw [htables] at hwrites
        refine (owns_of_writes hwrites href howns).imp_right ?_
        rintro ⟨rfl, hrow⟩
        have hcaller : x.caller s now (.call credentials route) = some ownerId := by
          rw [Server.caller, hknown]
          rfl
        refine ⟨credentials, route, now, redis, reply, rfl, hrow, hknown, ?_⟩
        rw [hcaller]

/-! ## Whose token it was -/

/-- A login was answered with the token. -/
def Issued (log : List Exchange) (accessToken : String) : Prop :=
  ∃ e ∈ log, ∃ payload jti token, e.request = .login payload jti ∧ e.response = .ok (.token token) ∧
    token.accessToken = accessToken

/-- Nobody presents a token that can be read and was not issued. -/
def Unforged (x : Server) (s : State) : Event → Prop
  | .request (.call (some c) _) now _ =>
    x.lib.decodeAccessToken x.settings c.credentials now ≠ none → Issued s.log c.credentials
  | _ => True

/-- The exchange was authenticated for the owner, drew the row and presented, while it was valid,
the token of an earlier login with the address and the password of the owner's registration. -/
def OnBehalf (x : Server) (before : List Exchange) (e : Exchange) (ownerId : UUID)
    (row : NewRow) : Prop :=
  ∃ c route reply, e.request = .call (some c) route ∧ e.caller = some ownerId ∧
    e.response = .ok reply ∧ row ∈ route.newRows ∧
    ∃ login ∈ before, ∃ payload jti token, login.request = .login payload jti ∧
      login.response = .ok (.token token) ∧ token.accessToken = c.credentials ∧
      timestamp login.now ≤ timestamp e.now ∧ timestamp e.now ≤ timestamp login.now + token.expiresIn ∧
      ∃ r ∈ before.filterMap Exchange.registration, r.userId = ownerId ∧ r.payload.email = payload.email ∧
        x.lib.verifyPassword payload.password (x.hashOf r) = true

theorem onBehalf_of_known (hlib : x.lib.Documented) (h : Reachable (step x) init s)
    {credentials : Option HTTPAuthorizationCredentials} {route : Route} {now : Time} {redis : RedisOutcome}
    (hknown : x.lib.getCurrentUserId x.settings s.tables.users credentials now = .ok ownerId)
    (hunforged : Unforged x s (.request (.call credentials route) now redis)) (hrow : row ∈ route.newRows)
    (reply : Reply) :
    OnBehalf x s.log ⟨.call credentials route, now, redis, some ownerId, .ok reply⟩ ownerId row := by
  obtain ⟨c, rfl, -, hdecode, -⟩ := getCurrentUserId_ok.mp hknown
  have hsome : x.lib.decodeAccessToken x.settings c.credentials now ≠ none := by
    rw [hdecode]
    exact Option.some_ne_none _
  obtain ⟨login, hlogin, payload, jti, token, hrequest, hresponse, htoken⟩ := hunforged hsome
  obtain ⟨r, hr, hemail, hverify, hreply⟩ :=
    tokensIssued_of_reachable h login hlogin payload jti _ hrequest hresponse
  cases hreply
  rw [← htoken, decodeAccessToken_create hlib] at hdecode
  split at hdecode
  · rename_i hvalid
    cases hdecode
    exact ⟨c, route, reply, rfl, rfl, rfl, hrow, login, hlogin, payload, jti, _, hrequest, hresponse, htoken,
      hvalid.1, hvalid.2, r, hr, rfl, hemail, hverify⟩
  · cases hdecode

/-- The log only grows. -/
theorem log_grows {e : Event} (h : step x s e = some t) : s.log <+: t.log := by
  rcases step_log h with ⟨hlog, -⟩ | ⟨request, now, redis, served, -, -, rfl⟩
  · rw [hlog]
  · exact List.prefix_append _ _

/-- As long as nobody presents a token that was not issued, everything that an owner has was put
there by a successful request on the owner's behalf: a request that drew its identifier and presented
a token, not expired, of an earlier login with the address and password of the owner's registration. -/
theorem rows_come_from_their_owners (hlib : x.lib.Documented)
    (h : ReachableBy (step x) (Unforged x) init s) (ownerId : UUID) (row : NewRow)
    (howns : Owns s.tables.db ownerId row) :
    AtSome (fun before e => OnBehalf x before e ownerId row) s.log := by
  refine h.invariant (I := fun s => ∀ ownerId row, Owns s.tables.db ownerId row →
    AtSome (fun before e => OnBehalf x before e ownerId row) s.log)
    (fun s hi ownerId row howns => ?_) (fun {s e t} hr hi hunforged hs ownerId row howns => ?_)
    ownerId row howns
  · rw [hi.2.1] at howns
    cases row with
    | function id =>
      obtain ⟨f, hf, -⟩ := howns
      exact absurd hf (Table.not_mem_empty f)
    | version id =>
      obtain ⟨v, hv, -⟩ := howns
      exact absurd hv (Table.not_mem_empty v)
    | invocation id =>
      obtain ⟨i, hi', -⟩ := howns
      exact absurd hi' (Table.not_mem_empty i)
    | dispatch id => exact howns.elim
  · have hreach := hr.reachable
    rcases step_owns (references_of_reachable hreach) hs howns with
      hold | ⟨credentials, route, now, redis, reply, rfl, hrow, hknown, hlog⟩
    · exact (hi ownerId row hold).mono (log_grows hs)
    · rw [hlog]
      exact .here (onBehalf_of_known hlib hreach hknown hunforged hrow reply)

/-- `Issued`, as a test. -/
def issued (log : List Exchange) (accessToken : String) : Bool :=
  log.any fun e =>
    match e.request, e.response with
    | .login _ _, .ok (.token token) => token.accessToken = accessToken
    | _, _ => false

theorem issued_of_true {log : List Exchange} {accessToken : String} (h : issued log accessToken = true) :
    Issued log accessToken := by
  obtain ⟨e, he, htest⟩ := List.any_eq_true.mp h
  split at htest
  · rename_i payload jti token hrequest hresponse
    exact ⟨e, he, payload, jti, token, hrequest, hresponse, of_decide_eq_true htest⟩
  · cases htest

/-- Nobody presents a token that was not issued, readable or not. -/
def presentsIssued (s : State) : Event → Bool
  | .request (.call (some c) _) _ _ => issued s.log c.credentials
  | _ => true

theorem unforged_of_presentsIssued {e : Event} (h : presentsIssued s e = true) : Unforged x s e := by
  unfold Unforged
  split
  · exact fun _ => issued_of_true h
  · trivial

/-- Ada's function and her invocations are Ada's doing. -/
theorem rows_come_from_their_owners_ada : ∃ s, ReachableBy (step demoServer) (Unforged demoServer) init s ∧
    OwnsFunction s.tables.db 7 1 ∧ OwnsInvocation s.tables.db 7 3 ∧
    AtSome (fun before e => OnBehalf demoServer before e 7 (.invocation 3)) s.log := by
  obtain ⟨s, hs, hp⟩ := reachableBy_of_replayWhere (step demoServer) adaInvokes
    (fun s => (s.tables.db.functions.rows.any fun f => f.id = 1 ∧ f.ownerId = 7) &&
      s.tables.db.invocations.rows.any fun i => i.id = 3 ∧ i.ownerId = 7)
    (fun s e (hc : presentsIssued s e = true) => unforged_of_presentsIssued hc) init_start
    (by decide +kernel)
  simp only [Bool.and_eq_true, List.any_eq_true, decide_eq_true_eq] at hp
  obtain ⟨⟨f, hf, hfid, hfo⟩, i, hi, hid, hio⟩ := hp
  exact ⟨s, hs, ⟨f, hf, hfid, hfo⟩, ⟨i, hi, hid, hio⟩,
    rows_come_from_their_owners plainAuth_documented hs 7 (.invocation 3) ⟨i, hi, hid, hio⟩⟩

end Serverless.Api
