import Mathlib.Data.String.Basic
import Serverless.Api.System
import Serverless.Library.Numerals
import Serverless.Limiter.Guarantees
import Serverless.Registry.System

/-!
# A deployment without cryptography

A library that does in the open what bcrypt and jose do in secret: the hash of a password is its hex
dump, a token is its claims one after the other. It has all the documented properties, so what is
proved of every library that has them is not proved of none.
-/
namespace Serverless.Api

open Serverless.Library Serverless.Model

/-! ## Passwords -/

def hexDump (data : List UInt8) : String :=
  String.ofList (data.flatMap fun b => Text.hexChars 2 b.toNat)

theorem mem_hexDump {data : List UInt8} {c : Char} (h : c ∈ (hexDump data).toList) :
    ∃ d, c = Nat.digitChar d := by
  rw [hexDump, String.toList_ofList] at h
  obtain ⟨b, -, hb⟩ := List.mem_flatMap.mp h
  exact Text.mem_hexChars hb

theorem digitChar_ascii (d : Nat) : d.digitChar.toNat < 128 := by
  have hsmall : ∀ n < 16, (Nat.digitChar n).toNat < 128 := by decide
  by_cases h : d < 16
  · exact hsmall d h
  · rw [Numerals.digitChar_of_le (Nat.le_of_not_lt h)]
    decide

theorem hexDump_ascii (data : List UInt8) : IsAscii (hexDump data) := by
  intro c hc
  obtain ⟨d, rfl⟩ := mem_hexDump hc
  exact digitChar_ascii d

theorem length_hexDump (data : List UInt8) : (hexDump data).length = 2 * data.length := by
  rw [hexDump, String.length_ofList, List.length_flatMap]
  simp [Nat.mul_comm]

theorem hexDump_fits {data : List UInt8} (h : data.length ≤ 127) : FitsVarchar 255 (hexDump data) := by
  refine ⟨by rw [CodePoint.length_ofString, length_hexDump]; omega, ?_⟩
  refine fitsText_ofString.mpr fun hzero => ?_
  obtain ⟨d, hd⟩ := mem_hexDump hzero
  exact Nat.digitChar_ne (Char.ofNat 0) (by decide) hd.symm

theorem toLower_idem (c : Char) : c.toLower.toLower = c.toLower := by
  delta Char.toLower
  split
  · rename_i h
    split
    · rename_i h'
      simp only [UInt32.le_iff_toNat_le, UInt32.toNat_add, ge_iff_le] at h h'
      simp at h h'
      omega
    · rfl
  · rfl

/-! ## Tokens -/

/-- A text up to the bar that ends it; bars and backslashes of the text are escaped. -/
def packed (text : List Char) : List Char :=
  text.flatMap (fun c => if c = '|' ∨ c = '\\' then ['\\', c] else [c]) ++ ['|']

def unpackOne : List Char → Option (List Char × List Char)
  | [] => none
  | '|' :: rest => some ([], rest)
  | '\\' :: c :: rest => (unpackOne rest).map fun p => (c :: p.1, p.2)
  | c :: rest => (unpackOne rest).map fun p => (c :: p.1, p.2)

def unpack : Nat → List Char → Option (List (List Char))
  | 0, _ => some []
  | n + 1, cs => (unpackOne cs).bind fun p => (unpack n p.2).map (p.1 :: ·)

theorem unpackOne_packed (text rest : List Char) :
    unpackOne (packed text ++ rest) = some (text, rest) := by
  induction text with
  | nil => rfl
  | cons c text ih =>
    have hcons : packed (c :: text) ++ rest =
        (if c = '|' ∨ c = '\\' then ['\\', c] else [c]) ++ (packed text ++ rest) := by
      simp [packed]
    rw [hcons]
    by_cases hescape : c = '|' ∨ c = '\\'
    · rw [if_pos hescape]
      simp [unpackOne, ih]
    · have hbar : c ≠ '|' := fun he => hescape (.inl he)
      have hslash : c ≠ '\\' := fun he => hescape (.inr he)
      rw [if_neg hescape, List.singleton_append, unpackOne.eq_4 _ _ hbar (fun _ _ he _ => hslash he), ih,
        Option.map_some]

theorem unpack_packed (texts : List (List Char)) :
    unpack texts.length (texts.flatMap packed) = some texts := by
  induction texts with
  | nil => rfl
  | cons text texts ih =>
    simp only [List.length_cons, List.flatMap_cons, unpack, unpackOne_packed, Option.bind_some, ih,
      Option.map_some]

def optionalText : Option String → List Char
  | none => []
  | some text => '+' :: text.toList

def textOf : List Char → Option String
  | [] => none
  | _ :: cs => some (String.ofList cs)

theorem textOf_optionalText (text : Option String) : textOf (optionalText text) = text := by
  cases text with
  | none => rfl
  | some text => exact congrArg some (String.ofList_toList)

def numeral : Int → List Char
  | .ofNat n => '+' :: Nat.toDigits 10 n
  | .negSucc n => '-' :: Nat.toDigits 10 n

def numberOf : List Char → Int
  | '-' :: cs => .negSucc (Nat.ofDigitChars 10 cs 0)
  | cs => .ofNat (Nat.ofDigitChars 10 (cs.drop 1) 0)

theorem numberOf_numeral (n : Int) : numberOf (numeral n) = n := by
  cases n with
  | ofNat n => exact congrArg Int.ofNat Nat.ofDigitChars_ten_toDigits
  | negSucc n => exact congrArg Int.negSucc Nat.ofDigitChars_ten_toDigits

/-- The claims as texts. -/
def claimTexts (claims : TokenClaims) : List (List Char) :=
  [optionalText claims.sub, optionalText claims.type, claims.iss.toList, claims.aud.toList,
    numeral claims.iat, numeral claims.nbf, numeral claims.exp, claims.jti.toList]

def claimsOf : List (List Char) → Option TokenClaims
  | [sub, type, iss, aud, iat, nbf, exp, jti] =>
    some ⟨textOf sub, textOf type, String.ofList iss, String.ofList aud, numberOf iat, numberOf nbf,
      numberOf exp, String.ofList jti⟩
  | _ => none

theorem claimsOf_claimTexts (claims : TokenClaims) : claimsOf (claimTexts claims) = some claims := by
  simp [claimsOf, claimTexts, textOf_optionalText, numberOf_numeral, String.ofList_toList]

/-! ## The library -/

def plainAuth : AuthLib where
  lower := List.map Char.toLower
  text := ⟨fun _ => none, fun _ => none⟩
  gensalt _ _ := ""
  hashpw password _ := hexDump (password.take maxBcryptPasswordBytes)
  checkpw password passwordHash := some (passwordHash = hexDump (password.take maxBcryptPasswordBytes))
  encode claims _ := String.ofList ((claimTexts claims).flatMap packed)
  decode token _ audience issuer now :=
    ((unpack 8 token.toList).bind claimsOf).filter fun claims =>
      claims.aud = audience ∧ claims.iss = issuer ∧ claims.nbf ≤ now ∧ now ≤ claims.exp

/-- **The plain library keeps what the documentation promises.** -/
theorem plainAuth_documented : plainAuth.Documented where
  lower_lower cs := by
    change (cs.map Char.toLower).map Char.toLower = cs.map Char.toLower
    rw [List.map_map]
    exact List.map_congr_left fun c _ => toLower_idem c
  lower_bearer _ h := h
  hashpw_ascii _ _ _ := hexDump_ascii _
  hashpw_fits password _ _ := by
    refine hexDump_fits ?_
    rw [List.length_take, maxBcryptPasswordBytes]
    omega
  checkpw_hashpw _ _ _ _ := congrArg some (decide_eq_true rfl)
  decode_encode claims key audience issuer now := by
    have hunpack : unpack 8 ((claimTexts claims).flatMap packed) = some (claimTexts claims) :=
      unpack_packed (claimTexts claims)
    simp only [plainAuth, String.toList_ofList, hunpack, Option.bind_some, claimsOf_claimTexts, Option.filter,
      decide_eq_true_eq]
  decode_claims {token key audience issuer now now' claims claims'} h h' := by
    simp only [plainAuth, Option.filter_eq_some_iff] at h h'
    exact Option.some.inj (h.1.symm.trans h'.1)

/-! ## A deployment that uses it -/

def demoServer : Server where
  lib := plainAuth
  settings :=
    { jwtSecretKey := "an-example-key-of-thirty-two-bytes"
      jwtIssuer := "platform"
      jwtAudience := "api"
      key_length := by decide
      expire_pos := by decide
      rounds := by decide }
  collation := inferInstance
  limiter := { Limiter.twoPerSecond with periodSeconds := 60, period_pos := by decide }
  storage := Registry.demoStorage
  logStorage := ⟨Registry.demoStorage.workspaceRoot, Registry.demoStorage.root_resolved⟩
  staleWorkerSeconds := 15

/-- Nobody has registered yet. -/
def start : State where
  tables := ⟨.fresh .empty .empty, .empty, fun _ => 0, fun _ => 0⟩
  files := fun _ => none
  stream := []
  buckets := fun _ => none
  log := []

theorem init_start : init start := ⟨rfl, rfl, rfl, rfl, rfl⟩

def ada : RegisterRequest :=
  ⟨"ada@example.org", "correct horse", by decide +kernel, by decide +kernel, by decide +kernel⟩

def adaLogin : LoginRequest :=
  ⟨"ada@example.org", "correct horse", by decide +kernel, by decide +kernel⟩

/-- The token that the login below is answered with. -/
def adaToken : HTTPAuthorizationCredentials :=
  ⟨"Bearer", plainAuth.createAccessToken demoServer.settings 7 0 99⟩

def helloPackage : { p : FunctionVersionCreate // p.Valid } :=
  ⟨{ package := ⟨"storage/packages/hello.zip", "0123456789abcdef"⟩ }, by decide +kernel⟩

def invokeHello (invocationId dispatchId : UUID) (now : Time) (redis : RedisOutcome) : Event :=
  .request (.call (some adaToken) (.invokeFunction "hello"
    { key_length := by simp, version_pos := by simp }
    invocationId dispatchId)) now redis

/-- Ada registers and logs in. -/
def adaArrives : List Event :=
  [.request (.register ada [] 7) 0 .unreachable,
    .request (.login adaLogin 99) 0 .unreachable]

/-- She deploys a function and invokes it. -/
def adaInvokes : List Event :=
  adaArrives ++
    [.request (.call (some adaToken) (.createFunction ⟨"hello", by decide +kernel⟩ 1)) (seconds 1)
        .unreachable,
      .request (.call (some adaToken) (.createFunctionVersion "hello" helloPackage 2)) (seconds 2)
        .unreachable,
      invokeHello 3 4 (seconds 3) (.replied 3000)]

/-- The invocation is published, and she asks for it. -/
def adaPolls : List Event :=
  adaInvokes ++
    [.platform (.dispatchPending 100 (seconds 6) [(.returned, seconds 6)]),
      .request (.call (some adaToken) (.getInvocation 3)) (seconds 7) .unreachable]

/-- She invokes a function that is not there yet, three times within a minute, in which two tokens
are to be had. -/
def adaHurries : List Event :=
  adaArrives ++
    [invokeHello 3 4 (seconds 3) (.replied 3000), invokeHello 5 6 (seconds 4) (.replied 4000),
      invokeHello 8 9 (seconds 5) (.replied 5000)]

end Serverless.Api
