import Mathlib.Data.Rat.Floor

/-!
# The invocation rate limiter

`backend/app/services/rate_limiter.py` and `enforce_invocation_rate_limit` of
`backend/app/api/dependencies.py`. The script runs atomically inside Redis, so it is one
function of the key it reads and of the server's time in milliseconds. Its numbers are exact
rationals where Lua computes with doubles.
-/
namespace Serverless.Model

/-- The hash that the script stores under the key, and the time that `PEXPIRE` sets for it. -/
structure StoredBucket where
  tokens : ℚ
  updatedAtMs : Int
  expiresAtMs : Int
  deriving DecidableEq

/-- When Redis drops a key, seen by a script that runs at a time. -/
abbrev Expiry := Int → StoredBucket → Bool

/-- A key disappears at its expiry time. -/
def Expiry.atDeadline : Expiry := fun nowMs b => b.expiresAtMs ≤ nowMs

/-- A server on which no key ever expires. -/
def Expiry.never : Expiry := fun _ _ => false

/-- `redis.call('HMGET', KEYS[1], ...)`: the hash, unless the key is missing. -/
def hmget (expiry : Expiry) (nowMs : Int) (key : Option StoredBucket) : Option StoredBucket :=
  key.filter fun b => !expiry nowMs b

theorem hmget_some (expiry : Expiry) (nowMs : Int) (b : StoredBucket) :
    hmget expiry nowMs (some b) = if expiry nowMs b then none else some b := by
  cases h : expiry nowMs b <;> simp [hmget, Option.filter, h]

/-- The array that the script returns. -/
structure ScriptReply where
  allowed : Int
  remaining : Int
  retryAfterMs : Int
  deriving DecidableEq

/-- The tokens that the script finds at its time, before it looks at the cost. -/
def refilledTokens (expiry : Expiry) (capacity periodMs nowMs : Int) (key : Option StoredBucket) : ℚ :=
  let bucket := hmget expiry nowMs key
  let tokens : ℚ := (bucket.map (·.tokens)).getD capacity
  let updatedAtMs := (bucket.map (·.updatedAtMs)).getD nowMs
  let elapsedMs := max 0 (nowMs - updatedAtMs)
  min (capacity : ℚ) (tokens + elapsedMs * capacity / periodMs)

/-- `TOKEN_BUCKET_SCRIPT`: the reply and the hash left under the key. -/
def tokenBucketScript (expiry : Expiry) (capacity periodMs cost nowMs : Int)
    (key : Option StoredBucket) : ScriptReply × StoredBucket :=
  let tokens := refilledTokens expiry capacity periodMs nowMs key
  if (cost : ℚ) ≤ tokens then
    let tokens := tokens - cost
    ({ allowed := 1, remaining := ⌊tokens⌋, retryAfterMs := 0 },
      { tokens := tokens, updatedAtMs := nowMs, expiresAtMs := nowMs + periodMs * 2 })
  else
    ({ allowed := 0, remaining := ⌊tokens⌋,
       retryAfterMs := ⌈((cost : ℚ) - tokens) * periodMs / capacity⌉ },
      { tokens := tokens, updatedAtMs := nowMs, expiresAtMs := nowMs + periodMs * 2 })

/-- `RateLimitDecision`. -/
structure RateLimitDecision where
  allowed : Bool
  remaining : Int
  retryAfterSeconds : Int
  deriving DecidableEq

/-- What `consume` raises. -/
inductive ConsumeError where
  | valueError (message : String)
  | rateLimiterUnavailable (message : String)
  deriving DecidableEq

/-- `RedisTokenBucketRateLimiter`: its constructor has refused everything that is not positive. -/
structure RedisTokenBucketRateLimiter where
  capacity : Int
  periodSeconds : Int
  capacity_pos : 0 < capacity
  period_pos : 0 < periodSeconds

namespace RedisTokenBucketRateLimiter

/-- `RedisTokenBucketRateLimiter.__init__`; the error is the text of a `ValueError`. -/
def init (capacity periodSeconds : Int) : Except String RedisTokenBucketRateLimiter :=
  if h : capacity ≤ 0 ∨ periodSeconds ≤ 0 then
    .error "Rate-limit capacity and period must be positive"
  else
    .ok ⟨capacity, periodSeconds, by omega, by omega⟩

/-- `self.period_ms`. -/
def periodMs (limiter : RedisTokenBucketRateLimiter) : Int := limiter.periodSeconds * 1000

/-- `RedisTokenBucketRateLimiter.consume`. The argument `eval` is what `redis.eval` does with the
capacity, the period and the cost; `none` is a `RedisError`. -/
def consume (limiter : RedisTokenBucketRateLimiter) (eval : Int → Int → Int → Option ScriptReply)
    (cost : Int) : Except ConsumeError RateLimitDecision :=
  if cost ≤ 0 ∨ cost > limiter.capacity then
    .error (.valueError "Rate-limit cost must be between 1 and capacity")
  else
    match eval limiter.capacity limiter.periodMs cost with
    | none => .error (.rateLimiterUnavailable "Redis rate limiter is unavailable")
    | some reply =>
      .ok { allowed := reply.allowed ≠ 0
            remaining := reply.remaining
            retryAfterSeconds := ⌈(reply.retryAfterMs : ℚ) / 1000⌉ }

end RedisTokenBucketRateLimiter

/-- `HTTPException`. -/
structure HTTPException where
  statusCode : Nat
  detail : String
  headers : List (String × String) := []
  deriving DecidableEq

/-- What leaves `enforce_invocation_rate_limit`. -/
inductive EnforceError where
  | http (error : HTTPException)
  | uncaught (error : ConsumeError)
  deriving DecidableEq

/-- `enforce_invocation_rate_limit`, which consumes one token. -/
def enforceInvocationRateLimit (limiter : RedisTokenBucketRateLimiter)
    (eval : Int → Int → Int → Option ScriptReply) : Except EnforceError Unit :=
  match limiter.consume eval 1 with
  | .error (.rateLimiterUnavailable _) =>
    .error (.http { statusCode := 503, detail := "Invocation rate limiter is unavailable" })
  | .error (.valueError message) => .error (.uncaught (.valueError message))
  | .ok decision =>
    if decision.allowed then .ok ()
    else
      .error (.http
        { statusCode := 429
          detail := "Invocation rate limit exceeded"
          headers := [("Retry-After", toString (max 1 decision.retryAfterSeconds))] })

end Serverless.Model
