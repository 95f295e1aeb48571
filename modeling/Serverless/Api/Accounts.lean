import Serverless.Api.Deployment
import Serverless.Api.Routes

/-!
# Accounts

The users table is the list of the registrations that were answered with an account, in their order:
no other request adds a user, not even `ensure_owner_exists`, and none changes one. So a login is
compared with the one registration of its address, whatever was registered in vain afterwards.
-/
namespace Serverless.Api

open Serverless.Library Serverless.Model Serverless.Tenancy

/-- A registration that was answered with an account. -/
def Exchange.registration (e : Exchange) : Option Registration :=
  match e.request, e.response with
  | .register payload drawn userId, .ok _ => some ⟨payload, drawn, userId⟩
  | _, _ => none

def State.registrations (s : State) : List Registration := s.log.filterMap Exchange.registration

/-- The reply to a login of a user. -/
def Server.tokenReply (x : Server) (userId : UUID) (now : Time) (jti : UUID) : Reply :=
  .token
    { accessToken := x.lib.createAccessToken x.settings userId now jti
      expiresIn := x.settings.accessTokenExpireMinutes * 60 }

variable {x : Server} {s t : State}

/-! ## The users table -/

/-- What it takes to be authenticated. -/
theorem getCurrentUserId_ok {users : Users} {credentials : Option HTTPAuthorizationCredentials}
    {now : Time} {ownerId : UUID} :
    x.lib.getCurrentUserId x.settings users credentials now = .ok ownerId ↔
      ∃ c, credentials = some c ∧ x.lib.lower c.scheme.toList = "bearer".toList ∧
        x.lib.decodeAccessToken x.settings c.credentials now = some ownerId ∧
        users.get ownerId ≠ none := by
  constructor
  · intro h
    unfold AuthLib.getCurrentUserId at h
    split at h
    · cases h
    split at h
    · cases h
    rename_i c hscheme
    split at h
    · cases h
    rename_i userId hdecode
    split at h
    · cases h
    rename_i huser
    cases h
    exact ⟨c, rfl, not_not.mp hscheme, hdecode, huser⟩
  · rintro ⟨c, rfl, hscheme, hdecode, huser⟩
    unfold AuthLib.getCurrentUserId
    simp only [hscheme, hdecode, ne_eq, not_true_eq_false, if_false, if_neg huser]

/-- The owner of an authenticated request exists, so that no row is made for it. -/
theorem writes_users {tables tables' : Tables} {ownerId : UUID} {ids : List NewRow} {user : User}
    (h : Writes tables ownerId ids tables') (huser : tables.users.get ownerId = some user) :
    tables'.users = tables.users := by
  cases h with
  | nothing | version | invocation => rfl
  | function hinsert howner husers now =>
    rw [Writes.ensured huser] at husers
    cases husers
    rfl

theorem perform_users {ownerId : UUID} {user : User} (huser : s.tables.users.get ownerId = some user)
    (now : Time) (route : Route) : (x.perform s ownerId now route).1.tables.users = s.tables.users :=
  writes_users (perform_writes x s ownerId now route) huser

/-- What an event does to the users, with what it adds to the registrations. -/
inductive UsersStep (x : Server) (s t : State) : Prop where
  | kept (husers : t.tables.users = s.tables.users) (hlog : t.registrations = s.registrations)
  | added (r : Registration) (hfits : FitsVarchar 320 r.payload.email)
      (hinsert : s.tables.users.insert (x.row r) = .ok t.tables.users)
      (hlog : t.registrations = s.registrations ++ [r])

theorem registrations_append (log : List Exchange) (e : Exchange) :
    (log ++ [e]).filterMap Exchange.registration =
      log.filterMap Exchange.registration ++ e.registration.toList := by
  rw [List.filterMap_append]
  cases h : e.registration <;> simp [h]

theorem step_users {e : Event} (h : step x s e = some t) : UsersStep x s t := by
  cases e with
  | platform call =>
    simp only [step, Option.ite_none_right_eq_some, Option.map_eq_some_iff] at h
    obtain ⟨-, ledger, -, rfl⟩ := h
    exact .kept rfl rfl
  | write path contents =>
    cases h
    exact .kept rfl rfl
  | request request now redis =>
    obtain ⟨served, hserved, rfl⟩ := step_request h
    cases hserved with
    | registered hfits hinsert =>
      exact .added _ hfits hinsert (registrations_append _ _)
    | notRegistered r f => exact .kept rfl ((registrations_append _ _).trans (List.append_nil _))
    | login payload jti => exact .kept rfl ((registrations_append _ _).trans (List.append_nil _))
    | unauthorized credentials route hrefused =>
      exact .kept rfl ((registrations_append _ _).trans (List.append_nil _))
    | limited credentials route hknown hthrottle =>
      rw [throttle_frame]
      exact .kept rfl ((registrations_append _ _).trans (List.append_nil _))
    | @performed credentials route ownerId hknown hthrottle =>
      obtain ⟨_, -, -, -, hsome⟩ := getCurrentUserId_ok.mp hknown
      obtain ⟨user, huser⟩ := Option.ne_none_iff_exists'.mp hsome
      have htables : (x.throttle s ownerId redis route).1.tables = s.tables := by rw [throttle_frame]
      have husers := perform_users (x := x) (s := (x.throttle s ownerId redis route).1)
        (htables ▸ huser) now route
      exact .kept (husers.trans (congrArg Tables.users htables))
        ((registrations_append _ _).trans (List.append_nil _))

theorem user_kept {e : Event} (h : step x s e = some t) {userId : UUID}
    (huser : s.tables.users.get userId ≠ none) : t.tables.users.get userId ≠ none := by
  cases step_users h with
  | kept husers hlog => rwa [husers]
  | added r hfits hinsert hlog =>
    obtain ⟨u, hu⟩ := Option.ne_none_iff_exists'.mp huser
    have hm := (Table.mem_insert hinsert).mpr (.inl (Table.get_mem hu))
    rw [← Table.get_key hu, Table.get_of_mem hm]
    exact Option.some_ne_none u

/-- The credentials of an old request still name its account. -/
theorem getCurrentUserId_kept {e : Event} (h : step x s e = some t)
    {credentials : Option HTTPAuthorizationCredentials} {now : Time} {ownerId : UUID}
    (hknown : x.lib.getCurrentUserId x.settings s.tables.users credentials now = .ok ownerId) :
    x.lib.getCurrentUserId x.settings t.tables.users credentials now = .ok ownerId := by
  obtain ⟨c, rfl, hscheme, hnow, huser⟩ := getCurrentUserId_ok.mp hknown
  exact getCurrentUserId_ok.mpr ⟨c, rfl, hscheme, hnow, user_kept h huser⟩

/-- The users are the registrations. -/
structure Accounts (x : Server) (s : State) : Prop where
  rows : s.tables.users.rows = s.registrations.map x.row
  fits : ∀ r ∈ s.registrations, FitsVarchar 320 r.payload.email

theorem Accounts.init (h : init s) : Accounts x s := by
  obtain ⟨husers, -, -, -, hlog⟩ := h
  have hnone : s.registrations = [] := by
    unfold State.registrations
    rw [hlog]
    rfl
  refine ⟨?_, ?_⟩
  · rw [husers, hnone]
    rfl
  · rw [hnone]
    exact fun r hr => absurd hr List.not_mem_nil

theorem Accounts.step {e : Event} (h : Accounts x s) (hs : step x s e = some t) : Accounts x t := by
  cases step_users hs with
  | kept husers hlog => exact ⟨by rw [husers, hlog, h.rows], by rw [hlog]; exact h.fits⟩
  | added r hfits hinsert hlog =>
    refine ⟨?_, fun q hq => ?_⟩
    · rw [Table.insert_rows hinsert, hlog, h.rows, List.map_append]
      rfl
    · rw [hlog] at hq
      rcases List.mem_append.mp hq with hq | hq
      · exact h.fits q hq
      · rw [List.mem_singleton.mp hq]
        exact hfits

/-- **In every reachable state the users are the registrations.** -/
theorem accounts_of_reachable (h : Reachable (step x) init s) : Accounts x s :=
  h.invariant (fun _ hi => .init hi) fun _ hi hs => hi.step hs

namespace Accounts

variable {r : Registration}

theorem row_mem (h : Accounts x s) (hr : r ∈ s.registrations) : x.row r ∈ s.tables.users :=
  Table.mem_rows.mp (h.rows ▸ List.mem_map_of_mem hr)

theorem mem_users (h : Accounts x s) {u : User} (hu : u ∈ s.tables.users) :
    ∃ r ∈ s.registrations, x.row r = u :=
  List.mem_map.mp (h.rows ▸ Table.mem_rows.mpr hu)

theorem emails_nodup (h : Accounts x s) : (s.registrations.map (·.payload.email)).Nodup := by
  have hunique := s.tables.users.unique
  rw [h.rows] at hunique
  have hsome : (s.registrations.map x.row).filterMap User.uniqueEmail =
      s.registrations.map (·.payload.email) := by
    rw [List.filterMap_map]
    exact congrFun List.filterMap_eq_map' _
  rwa [hsome] at hunique

theorem ids_nodup (h : Accounts x s) : (s.registrations.map (·.userId)).Nodup := by
  have hprimary := s.tables.users.primary
  rw [h.rows, List.map_map] at hprimary
  exact hprimary

/-- The account of an address is the one registration of it. -/
theorem find_email (h : Accounts x s) (hr : r ∈ s.registrations) :
    s.tables.users.rows.find? (fun u => u.email = r.payload.email) = some (x.row r) := by
  cases hfound : s.tables.users.rows.find? (fun u => u.email = r.payload.email) with
  | none =>
    have hno := List.find?_eq_none.mp hfound (x.row r) (h.row_mem hr)
    simp [Server.row] at hno
  | some u =>
    have hu : u ∈ s.tables.users := List.mem_of_find?_eq_some hfound
    have hemail : u.email = r.payload.email := by simpa using List.find?_some hfound
    rw [Table.eq_of_uniq hu (h.row_mem hr) (x := r.payload.email) (by rw [User.uniqueEmail, hemail]) rfl]

end Accounts

/-! ## Logging in -/

/-- A login that is answered is for the registration of its address, whose password it matches. -/
theorem login_ok (h : Accounts x s) {payload : LoginRequest} {jti : UUID} {now : Time} {reply : Reply}
    (hlogin : x.login s payload jti now = .ok reply) :
    ∃ r ∈ s.registrations, r.payload.email = payload.email ∧
      x.lib.verifyPassword payload.password (x.hashOf r) = true ∧
      reply = x.tokenReply r.userId now jti := by
  unfold Server.login AuthLib.loginRoute AuthLib.authenticate at hlogin
  by_cases hfits : FitsText payload.email
  · rw [if_pos hfits] at hlogin
    cases hfound : s.tables.users.rows.find? (fun u => u.email = payload.email) with
    | none => simp [hfound] at hlogin
    | some u =>
      have hemail : u.email = payload.email := by simpa using List.find?_some hfound
      obtain ⟨r, hr, rfl⟩ := h.mem_users (List.mem_of_find?_eq_some hfound)
      by_cases hverify : x.lib.verifyPassword payload.password (x.hashOf r) = true
      · refine ⟨r, hr, hemail, hverify, ?_⟩
        simp [hfound, Server.row, hverify] at hlogin
        exact hlogin.symm
      · simp [hfound, Server.row, hverify] at hlogin
  · rw [if_neg hfits] at hlogin
    cases hlogin

theorem login_of_verify (h : Accounts x s) {r : Registration} (hr : r ∈ s.registrations)
    {payload : LoginRequest} (hemail : payload.email = r.payload.email)
    (hverify : x.lib.verifyPassword payload.password (x.hashOf r) = true) (jti : UUID) (now : Time) :
    x.login s payload jti now = .ok (x.tokenReply r.userId now jti) := by
  unfold Server.login AuthLib.loginRoute AuthLib.authenticate
  rw [hemail, if_pos (h.fits r hr).2]
  simp only [h.find_email hr]
  simp [Server.row, hverify, Server.tokenReply]

/-- A refused login tells nothing about the address. -/
theorem login_refused (h : Accounts x s) {payload : LoginRequest} (hfits : FitsText payload.email)
    (hno : ∀ r ∈ s.registrations, r.payload.email = payload.email →
      x.lib.verifyPassword payload.password (x.hashOf r) = false) (jti : UUID) (now : Time) :
    x.login s payload jti now = .error (.http (unauthorized "Invalid email or password")) := by
  unfold Server.login AuthLib.loginRoute AuthLib.authenticate
  rw [if_pos hfits]
  cases hfound : s.tables.users.rows.find? (fun u => u.email = payload.email) with
  | none => simp
  | some u =>
    have hemail : u.email = payload.email := by simpa using List.find?_some hfound
    obtain ⟨r, hr, rfl⟩ := h.mem_users (List.mem_of_find?_eq_some hfound)
    simp [Server.row, hno r hr hemail]

/-- The accounts are the registrations that were answered with one, one for each address and one for
each identifier; a login is answered with a token exactly for the registration of its address whose
hash its password matches, and every other login with one and the same refusal, whether or not there
is such an account. -/
theorem logins_follow_registrations (h : Reachable (step x) init s) :
    s.tables.users.rows = s.registrations.map x.row ∧
      (s.registrations.map (·.payload.email)).Nodup ∧ (s.registrations.map (·.userId)).Nodup ∧
      ∀ (payload : LoginRequest) (jti : UUID) (now : Time),
        (∀ reply, x.login s payload jti now = .ok reply ↔
          ∃ r ∈ s.registrations, r.payload.email = payload.email ∧
            x.lib.verifyPassword payload.password (x.hashOf r) = true ∧
            reply = x.tokenReply r.userId now jti) ∧
        (FitsText payload.email →
          (∀ r ∈ s.registrations, r.payload.email = payload.email →
            x.lib.verifyPassword payload.password (x.hashOf r) = false) →
          x.login s payload jti now = .error (.http (unauthorized "Invalid email or password"))) := by
  have hacc := accounts_of_reachable h
  refine ⟨hacc.rows, hacc.emails_nodup, hacc.ids_nodup, fun payload jti now => ⟨fun reply => ?_, ?_⟩⟩
  · constructor
    · exact login_ok hacc
    · rintro ⟨r, hr, hemail, hverify, rfl⟩
      exact login_of_verify hacc hr hemail.symm hverify jti now
  · exact fun hfits hno => login_refused hacc hfits hno jti now

theorem logins_follow_registrations_ada : ∃ s, Reachable (step demoServer) init s ∧
    s.registrations.length = 1 ∧ s.tables.users.rows = s.registrations.map demoServer.row := by
  obtain ⟨s, hs, hp⟩ := reachable_of_replay (step demoServer) adaArrives
    (fun s => s.registrations.length = 1) init_start (by decide +kernel)
  exact ⟨s, hs, of_decide_eq_true hp, (logins_follow_registrations hs).1⟩

/-! ## Spellings of an address -/

theorem matchesEmail_visible {cs : List Char} (h : matchesEmail cs = true) :
    ∀ c ∈ cs, Text.isSpace c = false := by
  intro c hc
  unfold matchesEmail at h
  split at h
  · simp only [Bool.and_eq_true, List.all_eq_true, Bool.not_eq_true'] at h
    exact h.1.2 c hc
  · cases h

/-- Nothing is stripped from an address that has passed the pattern. -/
theorem strip_of_matchesEmail {cs : List Char} (h : matchesEmail cs = true) : Text.strip cs = cs := by
  have hvisible := matchesEmail_visible h
  have hfront : cs.dropWhile Text.isSpace = cs := by
    cases cs with
    | nil => rfl
    | cons c cs => simp [hvisible c List.mem_cons_self]
  unfold Text.strip
  rw [hfront, List.rdropWhile_eq_self_iff]
  intro hne
  simp [hvisible _ (List.getLast_mem hne)]

theorem normalizeEmail_ok {lib : AuthLib} {value email : String} (h : lib.normalizeEmail value = .ok email) :
    email = String.ofList (lib.lower (Text.strip value.toList)) ∧ matchesEmail email.toList = true := by
  unfold AuthLib.normalizeEmail at h
  dsimp only at h
  split at h
  · rename_i hmatch
    cases h
    exact ⟨rfl, by simpa using hmatch⟩
  · cases h

theorem emailField_ok {lib : AuthLib} {value email : String} (h : lib.emailField value = .ok email) :
    lib.normalizeEmail value = .ok email := by
  unfold AuthLib.emailField at h
  split at h
  · exact h
  · cases h

theorem emailField_of_length {lib : AuthLib} {value : String} (h : 3 ≤ value.length ∧ value.length ≤ 320) :
    lib.emailField value = lib.normalizeEmail value := if_pos h

/-- **Normalizing twice is normalizing once.** -/
theorem normalizeEmail_idem {lib : AuthLib} (hlib : lib.Documented) {value email : String}
    (h : lib.normalizeEmail value = .ok email) : lib.normalizeEmail email = .ok email := by
  obtain ⟨he, hmatch⟩ := normalizeEmail_ok h
  have htext : email.toList = lib.lower (Text.strip value.toList) := by rw [he, String.toList_ofList]
  unfold AuthLib.normalizeEmail
  dsimp only
  rw [strip_of_matchesEmail hmatch, htext, hlib.lower_lower, ← htext, if_pos hmatch, String.ofList_toList]

/-- An address has a name, the sign, and a dot between two characters. -/
theorem matchesEmail_length {cs : List Char} (h : matchesEmail cs = true) : 3 ≤ cs.length := by
  unfold matchesEmail at h
  split at h
  · rename_i name domain hsplit
    simp only [Bool.and_eq_true, decide_eq_true_eq] at h
    have hjoin : ['@'].intercalate (cs.splitOn '@') = cs := List.intercalate_splitOn _
    rw [hsplit] at hjoin
    have hname : 0 < name.length := List.length_pos_iff.mpr h.1.1
    have hdomain : 0 < domain.length := by
      cases domain with
      | nil => simp at h
      | cons d domain => exact Nat.succ_pos _
    rw [← hjoin]
    simp [List.intercalate]
    omega
  · cases h

/-- What validation makes of a registration. -/
theorem registerRequest_ok {lib : AuthLib} {email password : String} {payload : RegisterRequest}
    (h : lib.registerRequest email password = .ok payload) :
    lib.emailField email = .ok payload.email ∧ payload.password = password := by
  unfold AuthLib.registerRequest at h
  split at h
  · cases h
  · rename_i normalized hemail
    split at h
    · split at h
      · cases h
      · cases h
        exact ⟨hemail, rfl⟩
    · cases h

theorem loginRequest_of_email {lib : AuthLib} {email normalized password : String}
    (hemail : lib.emailField email = .ok normalized)
    (hlength : 1 ≤ password.length ∧ password.length ≤ 256) :
    ∃ payload, lib.loginRequest email password = .ok payload ∧ payload.email = normalized ∧
      payload.password = password := by
  unfold AuthLib.loginRequest
  split
  · rename_i e he
    rw [hemail] at he
    cases he
  · rename_i normalized' he
    rw [hemail] at he
    cases he
    rw [dif_pos hlength]
    exact ⟨_, rfl, rfl, rfl⟩

/-- Whoever has registered can log in from then on with the same password, under every spelling of
the address that differs in case and surrounding space only, and under the one that the account is
shown with, whatever else the platform and its clients do. -/
theorem registered_can_log_in (hlib : x.lib.Documented) (h : Reachable (step x) init s)
    {r : Registration} (hr : r ∈ s.registrations) {email password : String}
    (hsent : x.lib.registerRequest email password = .ok r.payload) :
    ∀ spelling : String,
      (3 ≤ spelling.length ∧ spelling.length ≤ 320 ∧
          x.lib.lower (Text.strip spelling.toList) = x.lib.lower (Text.strip email.toList)) ∨
        spelling = r.payload.email →
      ∃ payload, x.lib.loginRequest spelling password = .ok payload ∧
        ∀ jti now, x.login s payload jti now = .ok (x.tokenReply r.userId now jti) := by
  have hacc := accounts_of_reachable h
  obtain ⟨hemail, rfl⟩ := registerRequest_ok hsent
  have hnormal := emailField_ok hemail
  have hlength : 1 ≤ r.payload.password.length ∧ r.payload.password.length ≤ 256 := by
    have := r.payload.password_length
    omega
  have hverify := hlib.verifyPassword_hashPassword (hashPassword_eq (x := x) r)
  have hlogin : ∀ spelling, x.lib.emailField spelling = .ok r.payload.email →
      ∃ payload, x.lib.loginRequest spelling r.payload.password = .ok payload ∧
        ∀ jti now, x.login s payload jti now = .ok (x.tokenReply r.userId now jti) := by
    intro spelling hspelling
    obtain ⟨payload, hpayload, he, hp⟩ := loginRequest_of_email hspelling hlength
    exact ⟨payload, hpayload, fun jti now => login_of_verify hacc hr he (hp ▸ hverify) jti now⟩
  rintro spelling (⟨hshort, hlong, hsame⟩ | rfl)
  · apply hlogin
    rw [emailField_of_length ⟨hshort, hlong⟩, ← hnormal]
    unfold AuthLib.normalizeEmail
    rw [hsame]
  · apply hlogin
    have hfits := (hacc.fits r hr).1
    rw [CodePoint.length_ofString] at hfits
    have hlong := matchesEmail_length r.payload.email_valid
    rw [String.length_toList] at hlong
    rw [emailField_of_length ⟨hlong, hfits⟩]
    exact normalizeEmail_idem hlib hnormal

theorem registerRequest_of_email {lib : AuthLib} {email password : String} {payload : RegisterRequest}
    (hemail : lib.emailField email = .ok payload.email) (hpassword : payload.password = password) :
    lib.registerRequest email password = .ok payload := by
  subst hpassword
  obtain ⟨normalized, password, hvalid, hlength, hbytes⟩ := payload
  unfold AuthLib.registerRequest
  split
  · rename_i e he
    rw [hemail] at he
    cases he
  · rename_i normalized' he
    rw [hemail] at he
    cases he
    rw [dif_pos hlength]
    split
    · rename_i message hb
      rw [hb] at hbytes
      cases hbytes
    · rfl

/-- Ada has registered as `Ada@Example.org` and logs in as `ADA@example.org`. -/
theorem registered_can_log_in_ada : ∃ s, Reachable (step demoServer) init s ∧
    ∃ r ∈ s.registrations, r.payload.email = "ada@example.org" ∧
      ∃ payload, plainAuth.loginRequest " ADA@example.org" "correct horse" = .ok payload ∧
        ∀ jti now, demoServer.login s payload jti now = .ok (demoServer.tokenReply r.userId now jti) := by
  obtain ⟨s, hs, hp⟩ := reachable_of_replay (step demoServer) adaArrives
    (fun s => s.registrations.any fun r =>
      r.payload.email = "ada@example.org" ∧ r.payload.password = "correct horse") init_start
    (by decide +kernel)
  simp only [List.any_eq_true, decide_eq_true_eq] at hp
  obtain ⟨r, hr, hemail, hpassword⟩ := hp
  have hsent : demoServer.lib.registerRequest "Ada@Example.org" "correct horse" = .ok r.payload :=
    registerRequest_of_email (hemail ▸ (by decide +kernel :
      plainAuth.emailField "Ada@Example.org" = .ok "ada@example.org")) hpassword
  exact ⟨s, hs, r, hr, hemail, registered_can_log_in plainAuth_documented hs hr hsent
    " ADA@example.org" (.inl (by decide +kernel))⟩

end Serverless.Api
