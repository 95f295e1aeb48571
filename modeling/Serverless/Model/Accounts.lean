import Serverless.Model.Columns
import Serverless.Model.RateLimiter
import Serverless.Model.Services
import Serverless.Model.StreamCodec

/-!
# Accounts and access tokens

`backend/app/core/security.py`, `backend/app/schemas/auth.py`, `backend/app/services/auth.py` and
`get_current_user_id` of `backend/app/api/dependencies.py`. What bcrypt, jose and the case mapping
of the standard library do is a value of `AuthLib`.
-/
namespace Serverless.Model

open Serverless.Library

/-- Times as jose writes and compares them, in whole seconds. -/
def timestamp (t : Time) : Int := t / 1000000

/-- The claims of a token. A decoded token may lack the two that are read back; jose refuses a
subject that is not a text. -/
structure TokenClaims where
  sub : Option String
  type : Option String
  iss : String
  aud : String
  iat : Int
  nbf : Int
  exp : Int
  jti : String
  deriving DecidableEq

/-- The libraries that authentication calls. `gensalt` is given the random bytes that it draws;
`checkpw` is `none` when it raises a `ValueError`, and `decode`, given a key, an audience, an issuer
and the time, when it raises a `JWTError`. -/
structure AuthLib where
  lower : List Char → List Char
  text : Wire.PyText
  gensalt : Nat → List UInt8 → String
  hashpw : List UInt8 → String → String
  checkpw : List UInt8 → String → Option Bool
  encode : TokenClaims → String → String
  decode : String → String → String → String → Int → Option TokenClaims

/-- `MAX_BCRYPT_PASSWORD_BYTES`. -/
def maxBcryptPasswordBytes : Nat := 72

def IsAscii (text : String) : Prop := ∀ c ∈ text.toList, c.toNat < 128

instance (text : String) : Decidable (IsAscii text) :=
  List.decidableBAll (fun c : Char => c.toNat < 128) text.toList

/-- What the libraries document: lower-casing twice is lower-casing once; a password that bcrypt
takes whole matches its own hash, which is a short ASCII text; a token that was signed with the
key is read back while its times and names allow it, and the time decides only whether the claims of
a token are read, not which. -/
structure AuthLib.Documented (lib : AuthLib) : Prop where
  lower_lower : ∀ cs, lib.lower (lib.lower cs) = lib.lower cs
  lower_bearer : ∀ cs, cs.map Char.toLower = "bearer".toList → lib.lower cs = "bearer".toList
  hashpw_ascii : ∀ password rounds drawn, IsAscii (lib.hashpw password (lib.gensalt rounds drawn))
  hashpw_fits : ∀ password rounds drawn,
    FitsVarchar 255 (lib.hashpw password (lib.gensalt rounds drawn))
  checkpw_hashpw : ∀ password rounds drawn, password.length ≤ maxBcryptPasswordBytes →
    lib.checkpw password (lib.hashpw password (lib.gensalt rounds drawn)) = some true
  decode_encode : ∀ claims key audience issuer now,
    lib.decode (lib.encode claims key) key audience issuer now =
      if claims.aud = audience ∧ claims.iss = issuer ∧ claims.nbf ≤ now ∧ now ≤ claims.exp then
        some claims
      else none
  decode_claims : ∀ {token key audience issuer now now' claims claims'},
    lib.decode token key audience issuer now = some claims →
    lib.decode token key audience issuer now' = some claims' → claims = claims'

/-- The settings that authentication reads, with the bounds that they are declared with. -/
structure AuthSettings where
  jwtSecretKey : String
  jwtIssuer : String := "serverless-cloud-platform"
  jwtAudience : String := "serverless-cloud-platform-api"
  accessTokenExpireMinutes : Nat := 60
  passwordBcryptRounds : Nat := 12
  key_length : 32 ≤ jwtSecretKey.length
  expire_pos : 1 ≤ accessTokenExpireMinutes
  rounds : 4 ≤ passwordBcryptRounds ∧ passwordBcryptRounds ≤ 31

/-! ## Passwords -/

/-- The error is the text of a `PasswordTooLongError`. -/
def passwordBytes (password : String) : Except String (List UInt8) :=
  let encoded := Utf8.encode password.toList
  if maxBcryptPasswordBytes < encoded.length then .error "Password must not exceed 72 UTF-8 bytes"
  else .ok encoded

namespace AuthLib

variable (lib : AuthLib)

def hashPassword (password : String) (rounds : Nat) (drawn : List UInt8) : Except String String :=
  (passwordBytes password).map fun encoded => lib.hashpw encoded (lib.gensalt rounds drawn)

/-- Every exception on the way is caught and means no. -/
def verifyPassword (password passwordHash : String) : Bool :=
  match passwordBytes password with
  | .error _ => false
  | .ok encoded =>
    if IsAscii passwordHash then (lib.checkpw encoded passwordHash).getD false else false

end AuthLib

theorem passwordBytes_ok {password : String} {encoded : List UInt8}
    (h : passwordBytes password = .ok encoded) : encoded.length ≤ maxBcryptPasswordBytes := by
  unfold passwordBytes at h
  dsimp only at h
  split at h
  · cases h
  · rename_i hlen
    cases h
    omega

/-- **A password verifies against its own hash.** -/
theorem AuthLib.Documented.verifyPassword_hashPassword {lib : AuthLib} (hlib : lib.Documented)
    {password passwordHash : String} {rounds : Nat} {drawn : List UInt8}
    (h : lib.hashPassword password rounds drawn = .ok passwordHash) :
    lib.verifyPassword password passwordHash = true := by
  unfold AuthLib.hashPassword at h
  unfold AuthLib.verifyPassword
  cases hbytes : passwordBytes password with
  | error message => simp [hbytes, Except.map] at h
  | ok encoded =>
    simp only [hbytes, Except.map, Except.ok.injEq] at h
    subst h
    dsimp only
    rw [if_pos (hlib.hashpw_ascii _ _ _), hlib.checkpw_hashpw _ _ _ (passwordBytes_ok hbytes)]
    rfl

/-! ## The request schemas -/

/-- `EMAIL_PATTERN.fullmatch`: no white space, one `@`, and behind it a dot that is neither the first
nor the last character. -/
def matchesEmail (cs : List Char) : Bool :=
  match cs.splitOn '@' with
  | [name, domain] =>
    decide (name ≠ []) && cs.all (fun c => !Text.isSpace c) && (domain.drop 1).dropLast.contains '.'
  | _ => false

/-- How a field of a request fails its checks: its length, or a `ValueError` of its validator. -/
inductive FieldError where
  | length (field : String)
  | value (field message : String)
  deriving DecidableEq

namespace AuthLib

variable (lib : AuthLib)

def normalizeEmail (value : String) : Except FieldError String :=
  let normalized := lib.lower (Text.strip value.toList)
  if matchesEmail normalized then .ok (String.ofList normalized)
  else .error (.value "email" "Email address is invalid")

/-- The `email` field of an `EmailRequest`: the bounds are on what was sent. -/
def emailField (value : String) : Except FieldError String :=
  if 3 ≤ value.length ∧ value.length ≤ 320 then lib.normalizeEmail value else .error (.length "email")

end AuthLib

/-- `RegisterRequest` after validation. -/
structure RegisterRequest where
  email : String
  password : String
  email_valid : matchesEmail email.toList = true
  password_length : 8 ≤ password.length ∧ password.length ≤ 256
  password_bytes : (passwordBytes password).isOk = true

/-- `LoginRequest` after validation. -/
structure LoginRequest where
  email : String
  password : String
  email_valid : matchesEmail email.toList = true
  password_length : 1 ≤ password.length ∧ password.length ≤ 256

namespace AuthLib

variable {lib : AuthLib}

theorem emailField_valid {value email : String} (h : lib.emailField value = .ok email) :
    matchesEmail email.toList = true := by
  unfold emailField at h
  split at h
  · unfold normalizeEmail at h
    dsimp only at h
    split at h
    · rename_i hmatch
      cases h
      simpa using hmatch
    · cases h
  · cases h

variable (lib)

def registerRequest (email password : String) : Except FieldError RegisterRequest :=
  match hemail : lib.emailField email with
  | .error e => .error e
  | .ok normalized =>
    if hlength : 8 ≤ password.length ∧ password.length ≤ 256 then
      match hbytes : passwordBytes password with
      | .error message => .error (.value "password" message)
      | .ok _ =>
        .ok ⟨normalized, password, emailField_valid hemail, hlength, by rw [hbytes]; rfl⟩
    else .error (.length "password")

def loginRequest (email password : String) : Except FieldError LoginRequest :=
  match hemail : lib.emailField email with
  | .error e => .error e
  | .ok normalized =>
    if hlength : 1 ≤ password.length ∧ password.length ≤ 256 then
      .ok ⟨normalized, password, emailField_valid hemail, hlength⟩
    else .error (.length "password")

end AuthLib

/-! ## `AuthService` -/

/-- `DUMMY_PASSWORD_HASH`. -/
def dummyPasswordHash : String := "$2b$12$C6UzMDM.H6dfI/f/IKcEe.yr4bANZ7T6nZi2I6wF8Wj6E1i6GQK7G"

/-- What leaves a call of `AuthService`. A `DataError` is a value that a column cannot hold. -/
inductive AuthError where
  | passwordTooLong (message : String)
  | emailAlreadyRegistered
  | invalidCredentials
  | dataError
  deriving DecidableEq

abbrev Users := Table User.id User.uniqueEmail

namespace AuthLib

variable (lib : AuthLib)

/-- Every integrity error counts as a taken address. -/
def register (rounds : Nat) (users : Users) (email password : String) (drawn : List UInt8)
    (userId : UUID) : Users × Except AuthError User :=
  match lib.hashPassword password rounds drawn with
  | .error message => (users, .error (.passwordTooLong message))
  | .ok passwordHash =>
    let user : User := ⟨userId, email, passwordHash⟩
    if FitsVarchar 320 email ∧ FitsVarchar 255 passwordHash then
      match users.insert user with
      | .error _ => (users, .error .emailAlreadyRegistered)
      | .ok users => (users, .ok user)
    else (users, .error .dataError)

/-- A password is always checked, against the dummy hash where there is no account. -/
def authenticate (users : Users) (email password : String) : Except AuthError User :=
  if FitsText email then
    let user := users.rows.find? fun u => u.email = email
    let candidateHash := (user.map (·.passwordHash)).getD dummyPasswordHash
    let passwordMatches := lib.verifyPassword password candidateHash
    match user with
    | none => .error .invalidCredentials
    | some user => if passwordMatches then .ok user else .error .invalidCredentials
  else .error .dataError

/-! ## Tokens -/

/-- `jti` is the hex form of a new identifier. -/
def createAccessToken (settings : AuthSettings) (userId : UUID) (issuedAt : Time) (jti : UUID)
    (expiresDelta : Option Time := none) : String :=
  let tokenLifetime := expiresDelta.getD (seconds (settings.accessTokenExpireMinutes * 60))
  lib.encode
    { sub := some userId.str
      type := some "access"
      iss := settings.jwtIssuer
      aud := settings.jwtAudience
      iat := timestamp issuedAt
      nbf := timestamp issuedAt
      exp := timestamp (issuedAt + tokenLifetime)
      jti := String.ofList (Text.hexChars 32 jti.toNat) }
    settings.jwtSecretKey

/-- Whatever goes wrong is an `InvalidAccessTokenError`. -/
def decodeAccessToken (settings : AuthSettings) (token : String) (now : Time) : Option UUID :=
  match lib.decode token settings.jwtSecretKey settings.jwtAudience settings.jwtIssuer (timestamp now) with
  | none => none
  | some claims =>
    if claims.type ≠ some "access" then none
    else
      match claims.sub with
      | none => none
      | some sub => (Wire.uuid lib.text sub).toOption

end AuthLib

/-- What the bearer scheme takes from the `Authorization` header. -/
structure HTTPAuthorizationCredentials where
  scheme : String
  credentials : String

/-- `HTTPException` with status 401 and its header. -/
def unauthorized (detail : String) : HTTPException where
  statusCode := 401
  detail := detail
  headers := [("WWW-Authenticate", "Bearer")]

def AuthLib.getCurrentUserId (lib : AuthLib) (settings : AuthSettings) (users : Users)
    (credentials : Option HTTPAuthorizationCredentials) (now : Time) : Except HTTPException UUID :=
  match credentials with
  | none => .error (unauthorized "Bearer access token required")
  | some credentials =>
    if lib.lower credentials.scheme.toList ≠ "bearer".toList then
      .error (unauthorized "Bearer access token required")
    else
      match lib.decodeAccessToken settings credentials.credentials now with
      | none => .error (unauthorized "Invalid or expired access token")
      | some userId =>
        if users.get userId = none then
          .error { statusCode := 403, detail := "User account is unavailable" }
        else .ok userId

end Serverless.Model
