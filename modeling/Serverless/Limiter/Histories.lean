import Serverless.Library.TokenBucket
import Serverless.Model.RateLimiter

/-!
# Histories of one rate-limit key

The calls that the API processes make on one key, in the order in which Redis runs their
scripts. The script rewrites the bucket when it refuses a call and Redis drops the key some
time after the last call; a reference bucket does neither. Both answer every history alike.
-/
namespace Serverless.Limiter

open Serverless.Library Serverless.Model

variable {limiter : RedisTokenBucketRateLimiter}

/-- One call of `consume` that reaches Redis: its cost has passed the check. -/
structure Call (limiter : RedisTokenBucketRateLimiter) where
  nowMs : Int
  cost : Int
  cost_pos : 0 < cost
  cost_le : cost ≤ limiter.capacity

/-- A call with what the script replies to it and what `consume` returns for it. -/
@[ext]
structure Answer (limiter : RedisTokenBucketRateLimiter) where
  call : Call limiter
  reply : ScriptReply
  decision : Except ConsumeError RateLimitDecision

namespace Answer

/-- The caller is told to go ahead. -/
def allowed (a : Answer limiter) : Bool := a.decision.toOption.any (·.allowed)

end Answer

/-- What `redis.eval` does in a server that is up. -/
def evalAt (expiry : Expiry) (key : Option StoredBucket) (nowMs : Int) :
    Int → Int → Int → Option ScriptReply :=
  fun capacity periodMs cost => some (tokenBucketScript expiry capacity periodMs cost nowMs key).1

/-- The answer to a call that finds the key so. -/
def answer (expiry : Expiry) (key : Option StoredBucket) (call : Call limiter) : Answer limiter where
  call := call
  reply := (tokenBucketScript expiry limiter.capacity limiter.periodMs call.cost call.nowMs key).1
  decision := limiter.consume (evalAt expiry key call.nowMs) call.cost

/-- The key that a call leaves. -/
def stored (expiry : Expiry) (key : Option StoredBucket) (call : Call limiter) : Option StoredBucket :=
  some (tokenBucketScript expiry limiter.capacity limiter.periodMs call.cost call.nowMs key).2

/-- The key after some calls. -/
def after (expiry : Expiry) (key : Option StoredBucket) (calls : List (Call limiter)) :
    Option StoredBucket :=
  calls.foldl (stored expiry) key

/-- The answers to some calls. -/
def answers (expiry : Expiry) : Option StoredBucket → List (Call limiter) → List (Answer limiter)
  | _, [] => []
  | key, call :: calls => answer expiry key call :: answers expiry (stored expiry key call) calls

/-- The calls of a history that are allowed in it. -/
def allowedCalls (expiry : Expiry) (key : Option StoredBucket) (calls : List (Call limiter)) :
    List (Call limiter) :=
  ((answers expiry key calls).filter (·.allowed)).map (·.call)

/-- The cost of the calls allowed at the times of a window. -/
def allowedCost (s t : ℚ) (as : List (Answer limiter)) : Int :=
  ((as.filter fun a => a.allowed ∧ s ≤ a.call.nowMs ∧ a.call.nowMs ≤ t).map (·.call.cost)).sum

/-- What a script can have left under the key by a time. -/
def Sound (limiter : RedisTokenBucketRateLimiter) (nowMs : Int) (key : Option StoredBucket) : Prop :=
  ∀ b ∈ key, 0 ≤ b.tokens ∧ b.tokens ≤ limiter.capacity ∧
    b.expiresAtMs = b.updatedAtMs + limiter.periodMs * 2 ∧ b.updatedAtMs ≤ nowMs

/-- Calls in the order of their times, none before a given time. -/
def InOrder (nowMs : Int) (calls : List (Call limiter)) : Prop :=
  calls.Pairwise (·.nowMs ≤ ·.nowMs) ∧ ∀ call ∈ calls, nowMs ≤ call.nowMs

theorem inOrder_cons {nowMs : Int} {call : Call limiter} {calls : List (Call limiter)} :
    InOrder nowMs (call :: calls) ↔ nowMs ≤ call.nowMs ∧ InOrder call.nowMs calls := by
  simp only [InOrder, List.pairwise_cons, List.forall_mem_cons]
  constructor
  · rintro ⟨⟨hfirst, hrest⟩, hnow, -⟩
    exact ⟨hnow, hrest, hfirst⟩
  · rintro ⟨hnow, hrest, hfirst⟩
    exact ⟨⟨hfirst, hrest⟩, hnow, fun c hc => hnow.trans (hfirst c hc)⟩

theorem allowedCalls_cons (expiry : Expiry) (key : Option StoredBucket) (call : Call limiter)
    (calls : List (Call limiter)) :
    allowedCalls expiry key (call :: calls) =
      if (answer expiry key call).allowed then call :: allowedCalls expiry (stored expiry key call) calls
      else allowedCalls expiry (stored expiry key call) calls := by
  by_cases h : (answer expiry key call).allowed = true
  · simp only [allowedCalls, answers, List.filter_cons, h, if_true, List.map_cons]
    rfl
  · simp only [allowedCalls, answers, List.filter_cons, h, if_false, Bool.false_eq_true]

/-! ## One call -/

theorem periodMs_pos (limiter : RedisTokenBucketRateLimiter) : 0 < limiter.periodMs := by
  have := limiter.period_pos
  unfold RedisTokenBucketRateLimiter.periodMs
  omega

/-- The limiter's numbers as a rate. -/
def rate (limiter : RedisTokenBucketRateLimiter) : Rate ℚ where
  capacity := limiter.capacity
  period := limiter.periodMs
  capacity_pos := by exact_mod_cast limiter.capacity_pos
  period_pos := by exact_mod_cast periodMs_pos limiter

/-- A call as a request to the reference bucket. -/
def Call.request (call : Call limiter) : Request ℚ where
  time := call.nowMs
  cost := call.cost
  cost_nonneg := by exact_mod_cast call.cost_pos.le

/-- The reply to a cost when the script finds some tokens. -/
def replyFor (limiter : RedisTokenBucketRateLimiter) (cost : Int) (tokens : ℚ) : ScriptReply :=
  if (cost : ℚ) ≤ tokens then { allowed := 1, remaining := ⌊tokens - cost⌋, retryAfterMs := 0 }
  else
    { allowed := 0, remaining := ⌊tokens⌋,
      retryAfterMs := ⌈((cost : ℚ) - tokens) * limiter.periodMs / limiter.capacity⌉ }

/-- The tokens that a call leaves. -/
def tokensLeft (cost : Int) (tokens : ℚ) : ℚ := if (cost : ℚ) ≤ tokens then tokens - cost else tokens

/-- The tokens that a script of this limiter finds. -/
def found (limiter : RedisTokenBucketRateLimiter) (expiry : Expiry) (key : Option StoredBucket)
    (nowMs : Int) : ℚ :=
  refilledTokens expiry limiter.capacity limiter.periodMs nowMs key

theorem answer_reply (expiry : Expiry) (key : Option StoredBucket) (call : Call limiter) :
    (answer expiry key call).reply = replyFor limiter call.cost (found limiter expiry key call.nowMs) := by
  by_cases h : (call.cost : ℚ) ≤ refilledTokens expiry limiter.capacity limiter.periodMs call.nowMs key
  · simp [answer, tokenBucketScript, replyFor, found, h]
  · simp [answer, tokenBucketScript, replyFor, found, h]

theorem answer_decision (expiry : Expiry) (key : Option StoredBucket) (call : Call limiter) :
    (answer expiry key call).decision = .ok
      { allowed := (answer expiry key call).reply.allowed ≠ 0
        remaining := (answer expiry key call).reply.remaining
        retryAfterSeconds := ⌈((answer expiry key call).reply.retryAfterMs : ℚ) / 1000⌉ } := by
  have hcost : ¬ (call.cost ≤ 0 ∨ call.cost > limiter.capacity) := by
    have := call.cost_pos
    have := call.cost_le
    omega
  simp [answer, RedisTokenBucketRateLimiter.consume, hcost, evalAt]

theorem answer_allowed (expiry : Expiry) (key : Option StoredBucket) (call : Call limiter) :
    (answer expiry key call).allowed = true ↔ (call.cost : ℚ) ≤ found limiter expiry key call.nowMs := by
  simp only [Answer.allowed, answer_decision, Except.toOption, Option.any_some, answer_reply, replyFor]
  split
  · rename_i hle
    exact iff_of_true rfl hle
  · rename_i hle
    exact iff_of_false Bool.false_ne_true hle

theorem stored_eq (expiry : Expiry) (key : Option StoredBucket) (call : Call limiter) :
    stored expiry key call = some
      { tokens := tokensLeft call.cost (found limiter expiry key call.nowMs)
        updatedAtMs := call.nowMs
        expiresAtMs := call.nowMs + limiter.periodMs * 2 } := by
  by_cases h : (call.cost : ℚ) ≤ refilledTokens expiry limiter.capacity limiter.periodMs call.nowMs key
  · simp [stored, tokenBucketScript, tokensLeft, found, h]
  · simp [stored, tokenBucketScript, tokensLeft, found, h]

/-! ## The reference bucket -/

/-- Redis may keep a key longer than it has to, but never drops one early. -/
def Late (expiry : Expiry) : Prop := ∀ nowMs b, expiry nowMs b = true → b.expiresAtMs ≤ nowMs

theorem late_atDeadline : Late .atDeadline := fun _ _ h => of_decide_eq_true h

theorem late_never : Late .never := fun _ _ h => absurd h Bool.false_ne_true

/-- From a time on, scripts find under the key what the bucket holds. -/
structure Represents (expiry : Expiry) (nowMs : Int) (key : Option StoredBucket)
    (b : Bucket (rate limiter)) : Prop where
  since_le : b.since ≤ nowMs
  found_eq : ∀ t ≥ nowMs, found limiter expiry key t = b.level t

theorem Represents.later {expiry : Expiry} {nowMs t : Int} {key : Option StoredBucket}
    {b : Bucket (rate limiter)} (h : Represents expiry nowMs key b) (ht : nowMs ≤ t) :
    Represents expiry t key b :=
  ⟨h.since_le.trans (by exact_mod_cast ht), fun u hu => h.found_eq u (ht.trans hu)⟩

theorem found_none (expiry : Expiry) (nowMs : Int) : found limiter expiry none nowMs = limiter.capacity := by
  simp [found, refilledTokens, hmget]

/-- A hash left by a script is refilled from its time on, whether or not Redis has dropped it:
by then a period has passed and the bucket is full anyway. -/
theorem found_some {expiry : Expiry} (hlate : Late expiry) {b : StoredBucket} (hnonneg : 0 ≤ b.tokens)
    (hexpires : b.expiresAtMs = b.updatedAtMs + limiter.periodMs * 2) {t : Int} (ht : b.updatedAtMs ≤ t) :
    found limiter expiry (some b) t = (rate limiter).refill b.tokens (t - b.updatedAtMs) := by
  by_cases hgone : expiry t b = true
  · have hperiod : limiter.periodMs ≤ t - b.updatedAtMs := by
      have := hlate t b hgone
      have := periodMs_pos limiter
      omega
    have hfull : (rate limiter).refill b.tokens (t - b.updatedAtMs) = limiter.capacity :=
      (rate limiter).refill_full hnonneg (by simp only [rate]; exact_mod_cast hperiod)
    rw [hfull]
    simp [found, refilledTokens, hmget_some, hgone]
  · have helapsed : max 0 (t - b.updatedAtMs) = t - b.updatedAtMs := by omega
    simp only [found, refilledTokens, hmget_some, hgone, Option.map_some, Option.getD_some, if_false,
      Bool.false_eq_true, helapsed, Int.cast_sub]
    rfl

/-- Whatever a script can have left stands for some bucket. -/
theorem Sound.represents {nowMs : Int} {key : Option StoredBucket} (h : Sound limiter nowMs key) :
    ∃ b : Bucket (rate limiter), ∀ expiry, Late expiry → Represents expiry nowMs key b := by
  cases key with
  | none =>
    refine ⟨.full _ nowMs, fun expiry _ => ⟨le_rfl, fun t _ => ?_⟩⟩
    rw [found_none, Bucket.level_full]
    rfl
  | some k =>
    obtain ⟨hnonneg, hle, hexpires, hnow⟩ := h k rfl
    refine ⟨⟨k.tokens, k.updatedAtMs, hnonneg, hle⟩, fun expiry hlate => ⟨?_, fun t ht => ?_⟩⟩
    · show (k.updatedAtMs : ℚ) ≤ nowMs
      exact_mod_cast hnow
    · have hspan : (0 : ℚ) ≤ t - k.updatedAtMs := by exact_mod_cast sub_nonneg.mpr (hnow.trans ht)
      rw [found_some hlate hnonneg hexpires (hnow.trans ht), Bucket.level, max_eq_right hspan]

section Step

variable {expiry : Expiry} {nowMs : Int} {key : Option StoredBucket} {b : Bucket (rate limiter)}

theorem Represents.reply_eq (h : Represents expiry nowMs key b) {call : Call limiter}
    (hnow : nowMs ≤ call.nowMs) :
    (answer expiry key call).reply = replyFor limiter call.cost (b.level call.nowMs) := by
  rw [answer_reply, h.found_eq _ hnow]

theorem Represents.allowed_iff (h : Represents expiry nowMs key b) {call : Call limiter}
    (hnow : nowMs ≤ call.nowMs) : (answer expiry key call).allowed = true ↔ b.Grants call.request := by
  rw [answer_allowed, h.found_eq _ hnow]
  rfl

/-- What a call leaves is again something a script can have left. -/
theorem Represents.sound_stored (h : Represents expiry nowMs key b) {call : Call limiter}
    (hnow : nowMs ≤ call.nowMs) : Sound limiter call.nowMs (stored expiry key call) := by
  intro k hk
  rw [stored_eq, Option.mem_def, Option.some.injEq] at hk
  subst hk
  rw [h.found_eq _ hnow]
  have hnonneg := b.level_nonneg call.nowMs
  have hle := b.level_le_capacity call.nowMs
  have hcost : (0 : ℚ) ≤ call.cost := call.request.cost_nonneg
  refine ⟨?_, ?_, rfl, le_rfl⟩
  · unfold tokensLeft
    split
    · linarith
    · exact hnonneg
  · unfold tokensLeft
    split
    · exact (sub_le_self _ hcost).trans hle
    · exact hle

/-- The step of the simulation. A refused call stores the refilled tokens under a new time, and
refilling from there is refilling from before. -/
theorem Represents.represents_stored (hlate : Late expiry) (h : Represents expiry nowMs key b)
    {call : Call limiter} (hnow : nowMs ≤ call.nowMs) :
    Represents expiry call.nowMs (stored expiry key call) (b.serve call.request) := by
  have hsince : b.since ≤ call.nowMs := h.since_le.trans (by exact_mod_cast hnow)
  refine ⟨Bucket.since_serve_le hsince, fun t ht => ?_⟩
  obtain ⟨hnonneg, -, hexpires, -⟩ := h.sound_stored hnow _ (stored_eq expiry key call)
  have ht' : (call.nowMs : ℚ) ≤ t := by exact_mod_cast ht
  rw [stored_eq, found_some hlate hnonneg hexpires ht]
  simp only [h.found_eq _ hnow]
  by_cases hgrant : b.Grants call.request
  · have hcost : (call.cost : ℚ) ≤ b.level call.nowMs := hgrant
    rw [Bucket.level_serve_of_grants hgrant]
    simp [tokensLeft, hcost, Call.request, ht']
  · have hcost : ¬ (call.cost : ℚ) ≤ b.level call.nowMs := hgrant
    rw [Bucket.serve_of_not_grants hgrant, b.level_later hsince ht']
    simp [tokensLeft, hcost]

end Step

/-! ## Whole histories -/

section Runs

variable {expiry : Expiry} {nowMs : Int} {key : Option StoredBucket} {b : Bucket (rate limiter)}

/-- The bucket that a history leads to stands for the key from the last call on. -/
theorem Represents.represents_after (hlate : Late expiry) {calls : List (Call limiter)} {t : Int}
    (h : Represents expiry nowMs key b) (horder : InOrder nowMs calls) (hnow : nowMs ≤ t)
    (ht : ∀ call ∈ calls, call.nowMs ≤ t) :
    Represents expiry t (after expiry key calls) (b.after (calls.map Call.request)) := by
  induction calls generalizing nowMs key b with
  | nil => exact h.later hnow
  | cons call calls ih =>
    obtain ⟨hcall, hrest⟩ := inOrder_cons.mp horder
    obtain ⟨htcall, htrest⟩ := List.forall_mem_cons.mp ht
    exact ih (h.represents_stored hlate hcall) hrest htcall htrest

/-- An answer depends on the bucket only. -/
theorem Represents.answer_eq {expiry' : Expiry} {key' : Option StoredBucket} {call : Call limiter}
    (h : Represents expiry nowMs key b) (h' : Represents expiry' nowMs key' b) (hnow : nowMs ≤ call.nowMs) :
    answer expiry key call = answer expiry' key' call := by
  have hreply : (answer expiry key call).reply = (answer expiry' key' call).reply := by
    rw [h.reply_eq hnow, h'.reply_eq hnow]
  have hdecision : (answer expiry key call).decision = (answer expiry' key' call).decision := by
    rw [answer_decision, answer_decision, hreply]
  exact Answer.ext rfl hreply hdecision

theorem Represents.answers_eq {expiry' : Expiry} {key' : Option StoredBucket} (hlate : Late expiry)
    (hlate' : Late expiry') {calls : List (Call limiter)} (h : Represents expiry nowMs key b)
    (h' : Represents expiry' nowMs key' b) (horder : InOrder nowMs calls) :
    answers expiry key calls = answers expiry' key' calls := by
  induction calls generalizing nowMs key key' b with
  | nil => rfl
  | cons call calls ih =>
    obtain ⟨hcall, hrest⟩ := inOrder_cons.mp horder
    simp only [answers, h.answer_eq h' hcall]
    rw [ih (h.represents_stored hlate hcall) (h'.represents_stored hlate' hcall) hrest]

/-- The calls allowed are the requests that the bucket grants. -/
theorem Represents.allowedCalls_request (hlate : Late expiry) {calls : List (Call limiter)}
    (h : Represents expiry nowMs key b) (horder : InOrder nowMs calls) :
    (allowedCalls expiry key calls).map Call.request = b.granted (calls.map Call.request) := by
  induction calls generalizing nowMs key b with
  | nil => rfl
  | cons call calls ih =>
    obtain ⟨hcall, hrest⟩ := inOrder_cons.mp horder
    have htail := ih (h.represents_stored hlate hcall) hrest
    by_cases hallowed : (answer expiry key call).allowed = true
    · have hgrant := (h.allowed_iff hcall).mp hallowed
      simp [allowedCalls_cons, Bucket.granted, hallowed, hgrant, htail]
    · have hgrant : ¬ b.Grants call.request := fun hg => hallowed ((h.allowed_iff hcall).mpr hg)
      simp [allowedCalls_cons, Bucket.granted, hallowed, hgrant, htail]

end Runs

end Serverless.Limiter
