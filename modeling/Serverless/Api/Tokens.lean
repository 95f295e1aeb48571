import Serverless.Api.Accounts
import Serverless.Ledger.Origins
import Serverless.Stream.RoundTrip

/-!
# Access tokens

A token names the user whose password was checked when it was issued, until it expires. Only the
platform holds the key, so a token that can be read was issued by a login; then every function,
version and invocation has been put there by a request that presented a token of its owner.
-/
namespace Serverless.Api

open Serverless.Library Serverless.Model Serverless.Tenancy

variable {x : Server} {s t : State}

/-! ## Reading a token back -/

theorem timestamp_add_seconds (t : Time) (n : Int) : timestamp (t + seconds n) = timestamp t + n := by
  unfold timestamp seconds
  omega

theorem decodeAccessToken_create (hlib : x.lib.Documented) (userId : UUID) (issuedAt : Time) (jti : UUID)
    (now : Time) :
    x.lib.decodeAccessToken x.settings (x.lib.createAccessToken x.settings userId issuedAt jti) now =
      if timestamp issuedAt ≤ timestamp now ∧
          timestamp now ≤ timestamp issuedAt + (x.settings.accessTokenExpireMinutes * 60 : Nat) then
        some userId
      else none := by
  unfold AuthLib.decodeAccessToken AuthLib.createAccessToken
  rw [hlib.decode_encode]
  simp only [true_and, Option.getD_none, timestamp_add_seconds]
  push_cast
  by_cases hvalid : timestamp issuedAt ≤ timestamp now ∧
      timestamp now ≤ timestamp issuedAt + (x.settings.accessTokenExpireMinutes : Int) * 60
  · rw [if_pos hvalid, if_pos hvalid]
    simp [Wire.uuid_str, Except.toOption]
  · rw [if_neg hvalid, if_neg hvalid]

/-- A token of a user who exists is worth the user as long as it is valid. -/
theorem getCurrentUserId_token (hlib : x.lib.Documented) {users : Users} {userId : UUID}
    (huser : users.get userId ≠ none) {scheme : String}
    (hscheme : scheme.toList.map Char.toLower = "bearer".toList) (issuedAt : Time) (jti : UUID) (now : Time) :
    x.lib.getCurrentUserId x.settings users
        (some ⟨scheme, x.lib.createAccessToken x.settings userId issuedAt jti⟩) now =
      if timestamp issuedAt ≤ timestamp now ∧
          timestamp now ≤ timestamp issuedAt + (x.settings.accessTokenExpireMinutes * 60 : Nat) then
        .ok userId
      else .error (unauthorized "Invalid or expired access token") := by
  unfold AuthLib.getCurrentUserId
  dsimp only
  rw [if_neg (not_not.mpr (hlib.lower_bearer _ hscheme)), decodeAccessToken_create hlib]
  split
  · rename_i userId' hvalid
    split at hvalid
    · cases hvalid
    · rename_i hout
      rw [if_neg hout]
  · rename_i userId' hvalid
    split at hvalid
    · rename_i hin
      cases hvalid
      rw [if_neg huser, if_pos hin]
    · cases hvalid

theorem decodeAccessToken_same (hlib : x.lib.Documented) {token : String} {now now' : Time}
    {userId userId' : UUID} (h : x.lib.decodeAccessToken x.settings token now = some userId)
    (h' : x.lib.decodeAccessToken x.settings token now' = some userId') : userId = userId' := by
  unfold AuthLib.decodeAccessToken at h h'
  split at h
  · cases h
  · rename_i claims hclaims
    split at h'
    · cases h'
    · rename_i claims' hclaims'
      obtain rfl := hlib.decode_claims hclaims hclaims'
      exact Option.some.inj (h.symm.trans h')

/-- An account that credentials have named is there to be named again. -/
theorem getCurrentUserId_again (hlib : x.lib.Documented) {users users' : Users}
    {credentials : Option HTTPAuthorizationCredentials} {now : Time} {ownerId : UUID}
    (h : x.lib.getCurrentUserId x.settings users credentials now = .ok ownerId)
    (huser : users'.get ownerId ≠ none) (now' : Time) :
    x.lib.getCurrentUserId x.settings users' credentials now' = .ok ownerId ∨
      x.lib.getCurrentUserId x.settings users' credentials now' =
        .error (unauthorized "Invalid or expired access token") := by
  obtain ⟨c, rfl, hscheme, hnow, -⟩ := getCurrentUserId_ok.mp h
  cases hagain : x.lib.decodeAccessToken x.settings c.credentials now' with
  | none =>
    refine .inr ?_
    unfold AuthLib.getCurrentUserId
    simp only [hscheme, hagain, ne_eq, not_true_eq_false, if_false]
  | some userId =>
    obtain rfl := decodeAccessToken_same hlib hnow hagain
    exact .inl (getCurrentUserId_ok.mpr ⟨c, rfl, hscheme, hagain, huser⟩)

/-! ## Issued tokens -/

/-- Every token in the log was issued for a registration whose password had been checked. -/
def TokensIssued (x : Server) (s : State) : Prop :=
  ∀ e ∈ s.log, ∀ payload jti reply, e.request = .login payload jti → e.response = .ok reply →
    ∃ r ∈ s.registrations, r.payload.email = payload.email ∧
      x.lib.verifyPassword payload.password (x.hashOf r) = true ∧ reply = x.tokenReply r.userId e.now jti

theorem UsersStep.registrations_subset (h : UsersStep x s t) {r : Registration}
    (hr : r ∈ s.registrations) : r ∈ t.registrations := by
  cases h with
  | kept husers hlog => exact hlog ▸ hr
  | added q hfits hinsert hlog => exact hlog ▸ List.mem_append_left _ hr

theorem TokensIssued.step {e : Event} (h : TokensIssued x s) (hacc : Accounts x s)
    (hs : step x s e = some t) : TokensIssued x t := by
  intro entry hentry payload jti reply hrequest hresponse
  have hold : entry ∈ s.log → ∃ r ∈ t.registrations, r.payload.email = payload.email ∧
      x.lib.verifyPassword payload.password (x.hashOf r) = true ∧
      reply = x.tokenReply r.userId entry.now jti := by
    intro hm
    obtain ⟨r, hr, hrest⟩ := h entry hm payload jti reply hrequest hresponse
    exact ⟨r, (step_users hs).registrations_subset hr, hrest⟩
  rcases step_log hs with ⟨hlog, -⟩ | ⟨request, now, redis, served, -, hserved, ht⟩
  · exact hold (hlog ▸ hentry)
  · have hmem : entry ∈ s.log ++ [⟨request, now, redis, x.caller s now request, served.2⟩] := by
      rw [ht] at hentry
      exact hentry
    rcases List.mem_append.mp hmem with hm | hm
    · exact hold hm
    · obtain rfl := List.mem_singleton.mp hm
      change request = .login payload jti at hrequest
      subst hrequest
      cases hserved with
      | login =>
        obtain ⟨r, hr, hrest⟩ := login_ok hacc hresponse
        exact ⟨r, (step_users hs).registrations_subset hr, hrest⟩

theorem tokensIssued_of_reachable (h : Reachable (step x) init s) : TokensIssued x s := by
  refine h.invariant (fun s hi => ?_) fun hr hi hs => hi.step (accounts_of_reachable hr) hs
  intro e he
  rw [hi.2.2.2.2] at he
  cases he

/-- A token that a login was answered with stands for the account whose password was checked: in
every later state, and under every spelling of the scheme, it authenticates exactly that account from
the second of the login to the second in which it expires, and is refused as invalid at every other
time; it is never answered with a missing account. -/
theorem tokens_identify_their_user (hlib : x.lib.Documented) (h : Reachable (step x) init s)
    {e : Exchange} (he : e ∈ s.log) {payload : LoginRequest} {jti : UUID} {token : TokenResponse}
    (hrequest : e.request = .login payload jti) (hresponse : e.response = .ok (.token token)) :
    ∃ r ∈ s.registrations, r.payload.email = payload.email ∧
      x.lib.verifyPassword payload.password (x.hashOf r) = true ∧
      ∀ scheme : String, scheme.toList.map Char.toLower = "bearer".toList → ∀ now : Time,
        x.lib.getCurrentUserId x.settings s.tables.users (some ⟨scheme, token.accessToken⟩) now =
          if timestamp e.now ≤ timestamp now ∧ timestamp now ≤ timestamp e.now + token.expiresIn then
            .ok r.userId
          else .error (unauthorized "Invalid or expired access token") := by
  obtain ⟨r, hr, hemail, hverify, hreply⟩ :=
    tokensIssued_of_reachable h e he payload jti _ hrequest hresponse
  refine ⟨r, hr, hemail, hverify, fun scheme hscheme now => ?_⟩
  have huser : s.tables.users.get r.userId ≠ none := by
    have hget : s.tables.users.get r.userId = some (x.row r) :=
      Table.get_of_mem (accounts_of_reachable h |>.row_mem hr)
    rw [hget]
    exact Option.some_ne_none _
  cases hreply
  exact getCurrentUserId_token hlib huser hscheme e.now jti now

/-- A login at time zero that was answered with an hour's token. -/
def loginAtZero (e : Exchange) : Bool :=
  match e.request, e.response with
  | .login _ _, .ok (.token token) => e.now = 0 ∧ token.expiresIn = 3600
  | _, _ => false

theorem loginAtZero_iff {e : Exchange} (h : loginAtZero e = true) : ∃ payload jti token,
    e.request = .login payload jti ∧ e.response = .ok (.token token) ∧ e.now = 0 ∧ token.expiresIn = 3600 := by
  unfold loginAtZero at h
  split at h
  · rename_i payload jti token hrequest hresponse
    exact ⟨payload, jti, token, hrequest, hresponse, of_decide_eq_true h⟩
  · cases h

/-- The token that Ada is given at time zero is good for an hour. -/
theorem tokens_identify_their_user_ada : ∃ s, Reachable (step demoServer) init s ∧
    ∃ e ∈ s.log, ∃ token, e.response = .ok (.token token) ∧ ∃ r ∈ s.registrations,
      plainAuth.getCurrentUserId demoServer.settings s.tables.users
          (some ⟨"BEARER", token.accessToken⟩) (seconds 3600) = .ok r.userId ∧
        plainAuth.getCurrentUserId demoServer.settings s.tables.users
          (some ⟨"BEARER", token.accessToken⟩) (seconds 3601) =
            .error (unauthorized "Invalid or expired access token") := by
  obtain ⟨s, hs, hp⟩ := reachable_of_replay (step demoServer) adaArrives
    (fun s => s.log.any loginAtZero) init_start (by decide +kernel)
  obtain ⟨e, he, hlogin⟩ := List.any_eq_true.mp hp
  obtain ⟨payload, jti, token, hrequest, hresponse, hnow, hexpires⟩ := loginAtZero_iff hlogin
  obtain ⟨r, hr, -, -, htoken⟩ :=
    tokens_identify_their_user plainAuth_documented hs he hrequest hresponse
  refine ⟨s, hs, e, he, token, hresponse, r, hr, ?_, ?_⟩
  · refine (htoken "BEARER" (by decide) (seconds 3600)).trans (if_pos ?_)
    rw [hnow, hexpires]
    decide
  · refine (htoken "BEARER" (by decide) (seconds 3601)).trans (if_neg ?_)
    rw [hnow, hexpires]
    decide

end Serverless.Api
