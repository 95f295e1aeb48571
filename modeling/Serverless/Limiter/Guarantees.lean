import Serverless.Limiter.Histories

/-!
# What the rate limiter guarantees

Over every history of a key: no window of time is allowed more than the rate gives it, and
refusals are exact. They change nothing, they come with the first time at which the same call
would be allowed, and neither expiry nor the rounding to seconds moves that time forward.
-/
namespace Serverless.Limiter

open Serverless.Library Serverless.Model

variable {limiter : RedisTokenBucketRateLimiter}

/-! ## Spending -/

theorem allowedCost_eq (s t : ℚ) (as : List (Answer limiter)) :
    (allowedCost s t as : ℚ) =
      Bucket.costWithin s t (((as.filter (·.allowed)).map (·.call)).map Call.request) := by
  induction as with
  | nil => simp [allowedCost, Bucket.costWithin]
  | cons a as ih =>
    by_cases hallowed : a.allowed = true
    · have hcons : allowedCost s t (a :: as) =
          (if s ≤ a.call.nowMs ∧ (a.call.nowMs : ℚ) ≤ t then a.call.cost else 0) + allowedCost s t as := by
        by_cases hwindow : s ≤ a.call.nowMs ∧ (a.call.nowMs : ℚ) ≤ t <;>
          simp [allowedCost, hallowed, hwindow]
      rw [hcons, List.filter_cons_of_pos hallowed, List.map_cons, List.map_cons, Bucket.costWithin_cons]
      push_cast
      rw [ih]
      rfl
    · have hcons : allowedCost s t (a :: as) = allowedCost s t as := by simp [allowedCost, hallowed]
      rw [hcons, List.filter_cons_of_neg hallowed, ih]

theorem sound_none (limiter : RedisTokenBucketRateLimiter) (nowMs : Int) : Sound limiter nowMs none := by
  intro b hb
  cases hb

/-- Calls in order start at some time. -/
theorem exists_inOrder {calls : List (Call limiter)} (h : calls.Pairwise (·.nowMs ≤ ·.nowMs)) :
    ∃ nowMs, InOrder nowMs calls := by
  cases calls with
  | nil => exact ⟨0, h, by simp⟩
  | cons call calls =>
    obtain ⟨hfirst, hrest⟩ := List.pairwise_cons.mp h
    exact ⟨call.nowMs, inOrder_cons.mpr ⟨le_rfl, hrest, hfirst⟩⟩

theorem request_inOrder {nowMs : Int} {calls : List (Call limiter)} (h : InOrder nowMs calls) :
    (calls.map Call.request).Pairwise (·.time ≤ ·.time) ∧
      ∀ q ∈ calls.map Call.request, (nowMs : ℚ) ≤ q.time := by
  constructor
  · apply List.pairwise_map.mpr
    refine h.1.imp fun {c d} hcd => ?_
    show (c.nowMs : ℚ) ≤ d.nowMs
    exact_mod_cast hcd
  · intro q hq
    obtain ⟨call, hc, rfl⟩ := List.mem_map.mp hq
    show (nowMs : ℚ) ≤ call.nowMs
    exact_mod_cast h.2 call hc

section

variable {expiry : Expiry} {nowMs : Int} {key : Option StoredBucket} {b : Bucket (rate limiter)}

theorem Represents.tokens_after (hlate : Late expiry) {calls : List (Call limiter)}
    (h : Represents expiry nowMs key b) (hsound : Sound limiter nowMs key) (horder : InOrder nowMs calls) :
    ∀ k ∈ after expiry key calls, 0 ≤ k.tokens ∧ k.tokens ≤ limiter.capacity := by
  induction calls generalizing nowMs key b with
  | nil =>
    intro k hk
    obtain ⟨hnonneg, hle, -, -⟩ := hsound k hk
    exact ⟨hnonneg, hle⟩
  | cons call calls ih =>
    obtain ⟨hcall, hrest⟩ := inOrder_cons.mp horder
    exact ih (h.represents_stored hlate hcall) (h.sound_stored hcall) hrest

theorem replyFor_remaining_nonneg {cost : Int} {tokens : ℚ} (h : 0 ≤ tokens) :
    0 ≤ (replyFor limiter cost tokens).remaining := by
  unfold replyFor
  split
  next hcost => exact Int.floor_nonneg.mpr (sub_nonneg.mpr hcost)
  next => exact Int.floor_nonneg.mpr h

theorem Represents.remaining_nonneg (hlate : Late expiry) {calls : List (Call limiter)}
    (h : Represents expiry nowMs key b) (horder : InOrder nowMs calls) :
    ∀ a ∈ answers expiry key calls, ∃ d, a.decision = .ok d ∧ 0 ≤ d.remaining := by
  induction calls generalizing nowMs key b with
  | nil => exact fun a ha => absurd ha List.not_mem_nil
  | cons call calls ih =>
    obtain ⟨hcall, hrest⟩ := inOrder_cons.mp horder
    intro a ha
    rcases List.mem_cons.mp ha with rfl | ha
    · refine ⟨_, answer_decision expiry key call, ?_⟩
      show 0 ≤ (answer expiry key call).reply.remaining
      rw [h.reply_eq hcall]
      exact replyFor_remaining_nonneg (b.level_nonneg _)
    · exact ih (h.represents_stored hlate hcall) hrest a ha

end

/-- In no window of time do the calls on a key spend more than a full bucket and what is earned
in the window; the bucket stays between empty and full, and `consume` reports no negative rest. -/
theorem never_overspends (limiter : RedisTokenBucketRateLimiter) (calls : List (Call limiter))
    (hsorted : calls.Pairwise (·.nowMs ≤ ·.nowMs)) {s t : ℚ} (hst : s ≤ t) :
    (allowedCost s t (answers .atDeadline none calls) : ℚ) ≤
        limiter.capacity + (t - s) * limiter.capacity / limiter.periodMs ∧
      (∀ b ∈ after .atDeadline none calls, 0 ≤ b.tokens ∧ b.tokens ≤ limiter.capacity) ∧
      ∀ a ∈ answers .atDeadline none calls, ∃ d, a.decision = .ok d ∧ 0 ≤ d.remaining := by
  obtain ⟨nowMs, horder⟩ := exists_inOrder hsorted
  obtain ⟨b, hb⟩ := (sound_none limiter nowMs).represents
  have hrep := hb _ late_atDeadline
  refine ⟨?_, hrep.tokens_after late_atDeadline (sound_none limiter nowMs) horder,
    hrep.remaining_nonneg late_atDeadline horder⟩
  have hgranted := hrep.allowedCalls_request late_atDeadline horder
  obtain ⟨htimes, hfrom⟩ := request_inOrder horder
  rw [allowedCalls] at hgranted
  rw [allowedCost_eq, hgranted]
  exact b.costWithin_granted_le htimes (fun q hq => hrep.since_le.trans (hfrom q hq)) hst

/-- A limiter of two calls a second, for the scenarios below. -/
def twoPerSecond : RedisTokenBucketRateLimiter := ⟨2, 1, by decide, by decide⟩

/-- A call of that limiter for one token. -/
def oneToken (nowMs : Int) : Call twoPerSecond := ⟨nowMs, 1, by decide, by decide⟩

theorem never_overspends_burst :
    [oneToken 0, oneToken 0, oneToken 0, oneToken 500].Pairwise (·.nowMs ≤ ·.nowMs) ∧
      allowedCost 0 500 (answers .atDeadline none
        [oneToken 0, oneToken 0, oneToken 0, oneToken 500]) ≤ (3 : ℚ) :=
  ⟨by decide, by
    have h := (never_overspends twoPerSecond [oneToken 0, oneToken 0, oneToken 0, oneToken 500]
      (by decide) (s := 0) (t := 500) (by norm_num)).1
    norm_num [twoPerSecond, RedisTokenBucketRateLimiter.periodMs] at h
    exact h⟩

/-! ## Refusals -/

section

variable {expiry : Expiry} {nowMs : Int} {key : Option StoredBucket} {b : Bucket (rate limiter)}

/-- Without the refused calls of a history the rest of it is answered as before, and so is what
comes after it. -/
theorem Represents.answers_allowedCalls (hlate : Late expiry) {history later : List (Call limiter)}
    (h : Represents expiry nowMs key b) (horder : InOrder nowMs (history ++ later)) :
    answers expiry key (allowedCalls expiry key history ++ later) =
      (answers expiry key history).filter (·.allowed) ++
        answers expiry (after expiry key history) later := by
  -- two keys that stand for one bucket: one has seen the refused calls, the other has not
  suffices hgen : ∀ (history : List (Call limiter)) (nowMs : Int) (k k' : Option StoredBucket)
      (b : Bucket (rate limiter)), Represents expiry nowMs k b → Represents expiry nowMs k' b →
      InOrder nowMs (history ++ later) →
      answers expiry k' (allowedCalls expiry k history ++ later) =
        (answers expiry k history).filter (·.allowed) ++ answers expiry (after expiry k history) later from
    hgen history nowMs key key b h h horder
  intro history
  induction history with
  | nil =>
    intro nowMs k k' b hk hk' horder
    exact hk'.answers_eq hlate hlate hk horder
  | cons call history ih =>
    intro nowMs k k' b hk hk' horder
    obtain ⟨hcall, hrest⟩ := inOrder_cons.mp horder
    have hstored := hk.represents_stored hlate hcall
    by_cases hallowed : (answer expiry k call).allowed = true
    · have hanswer := hk'.answer_eq hk hcall
      have htail := ih _ _ _ _ hstored (hk'.represents_stored hlate hcall) hrest
      rw [allowedCalls_cons, if_pos hallowed, List.cons_append]
      simp only [answers, hanswer, htail, List.filter_cons_of_pos hallowed]
      rfl
    · have hgrant : ¬ b.Grants call.request := fun hg => hallowed ((hk.allowed_iff hcall).mpr hg)
      rw [Bucket.serve_of_not_grants hgrant] at hstored
      have htail := ih _ _ k' _ hstored (hk'.later hcall) hrest
      rw [allowedCalls_cons, if_neg hallowed, htail]
      simp only [answers, List.filter_cons_of_neg hallowed]
      rfl

/-- Calls that are all refused leave the bucket as it was. -/
theorem Represents.after_refused (hlate : Late expiry) {calls : List (Call limiter)}
    (h : Represents expiry nowMs key b) (horder : InOrder nowMs calls)
    (hrefused : ∀ a ∈ answers expiry key calls, a.allowed = false) :
    b.after (calls.map Call.request) = b := by
  have hnone : (answers expiry key calls).filter (·.allowed) = [] := by
    apply List.filter_eq_nil_iff.mpr
    intro a ha
    simp [hrefused a ha]
  have hgranted := h.allowedCalls_request hlate horder
  rw [allowedCalls, hnone, List.map_nil, List.map_nil] at hgranted
  rw [← Bucket.after_granted, ← hgranted]
  rfl

/-- The wait that the script reports, in terms of the bucket. -/
theorem retryAfterMs_refused {cost : Int} {tokens : ℚ} (h : ¬ (cost : ℚ) ≤ tokens) :
    (replyFor limiter cost tokens).retryAfterMs =
      ⌈((cost : ℚ) - tokens) * (rate limiter).period / (rate limiter).capacity⌉ := by
  simp [replyFor, h, rate]

theorem retryAfterMs_pos {cost : Int} {tokens : ℚ} (h : ¬ (cost : ℚ) ≤ tokens) :
    0 < (replyFor limiter cost tokens).retryAfterMs := by
  rw [retryAfterMs_refused h, Int.ceil_pos]
  have hmissing : 0 < (cost : ℚ) - tokens := sub_pos.mpr (lt_of_not_ge h)
  exact div_pos (mul_pos hmissing (rate limiter).period_pos) (rate limiter).capacity_pos

theorem retryAfterMs_le {cost : Int} {tokens : ℚ} (h : ¬ (cost : ℚ) ≤ tokens) (hnonneg : 0 ≤ tokens)
    (hcost : cost ≤ limiter.capacity) :
    (replyFor limiter cost tokens).retryAfterMs ≤ limiter.periodMs := by
  have hle : (cost : ℚ) - tokens ≤ (rate limiter).capacity := by
    have hcast : (cost : ℚ) ≤ limiter.capacity := by exact_mod_cast hcost
    show (cost : ℚ) - tokens ≤ limiter.capacity
    linarith
  rw [retryAfterMs_refused h, Int.ceil_le, div_le_iff₀ (rate limiter).capacity_pos, mul_comm]
  exact mul_le_mul_of_nonneg_left hle (rate limiter).period_pos.le

/-- The reported wait ends exactly when the bucket holds the cost again. -/
theorem level_of_wait {call : Call limiter} {t : Int} (hsince : b.since ≤ call.nowMs)
    (ht : call.nowMs ≤ t) (hrefused : ¬ (call.cost : ℚ) ≤ b.level call.nowMs) :
    (call.cost : ℚ) ≤ b.level t ↔
      call.nowMs + (replyFor limiter call.cost (b.level call.nowMs)).retryAfterMs ≤ t := by
  have ht' : (call.nowMs : ℚ) ≤ t := by exact_mod_cast ht
  have hcost : (call.cost : ℚ) ≤ (rate limiter).capacity := by
    show (call.cost : ℚ) ≤ limiter.capacity
    exact_mod_cast call.cost_le
  rw [b.level_later hsince ht', (rate limiter).le_refill_iff hcost, retryAfterMs_refused hrefused,
    ← le_sub_iff_add_le', Int.ceil_le]
  push_cast
  rfl

/-- What a refused call is told, and what becomes of the same cost after calls that are all
refused too. -/
theorem Represents.retry_iff (hlate : Late expiry) {call retry : Call limiter} {between : List (Call limiter)}
    (h : Represents expiry nowMs key b) (hnow : nowMs ≤ call.nowMs)
    (hrefused : (answer expiry key call).allowed = false) (horder : InOrder call.nowMs (between ++ [retry]))
    (hcost : retry.cost = call.cost)
    (hbetween : ∀ a ∈ answers expiry (stored expiry key call) between, a.allowed = false) :
    (answer expiry (after expiry (stored expiry key call) between) retry).allowed = true ↔
      call.nowMs + (answer expiry key call).reply.retryAfterMs ≤ retry.nowMs := by
  have hgrant : ¬ b.Grants call.request := by
    intro hg
    rw [(h.allowed_iff hnow).mpr hg] at hrefused
    cases hrefused
  have hsince : b.since ≤ call.nowMs := (h.later hnow).since_le
  have hstored := h.represents_stored hlate hnow
  rw [Bucket.serve_of_not_grants hgrant] at hstored
  obtain ⟨hpair, hfrom⟩ := horder
  obtain ⟨hpair, -, hlast⟩ := List.pairwise_append.mp hpair
  have hbetween' : InOrder call.nowMs between :=
    ⟨hpair, fun c hc => hfrom c (List.mem_append_left _ hc)⟩
  have hretry : call.nowMs ≤ retry.nowMs := hfrom retry (by simp)
  have hend := hstored.represents_after hlate hbetween' hretry fun c hc => hlast c hc retry (by simp)
  rw [hstored.after_refused hlate hbetween' hbetween] at hend
  rw [hend.allowed_iff le_rfl, h.reply_eq hnow, ← level_of_wait hsince hretry hgrant, ← hcost]
  rfl

end

/-! ## The HTTP answer -/

/-- `enforce_invocation_rate_limit` at a time, on a server that is up. -/
def enforceAt (limiter : RedisTokenBucketRateLimiter) (key : Option StoredBucket) (nowMs : Int) :
    Except EnforceError Unit :=
  enforceInvocationRateLimit limiter (evalAt .atDeadline key nowMs)

/-- The call that `enforce_invocation_rate_limit` makes. -/
def unitCall (limiter : RedisTokenBucketRateLimiter) (nowMs : Int) : Call limiter :=
  ⟨nowMs, 1, by decide, limiter.capacity_pos⟩

/-- The seconds of the `Retry-After` header for a wait in milliseconds. -/
def retrySeconds (ms : Int) : Int := max 1 ⌈(ms : ℚ) / 1000⌉

/-- The response to a refused call. -/
def tooManyRequests (wait : Int) : HTTPException where
  statusCode := 429
  detail := "Invocation rate limit exceeded"
  headers := [("Retry-After", toString wait)]

theorem enforceAt_eq (limiter : RedisTokenBucketRateLimiter) (key : Option StoredBucket) (nowMs : Int) :
    enforceAt limiter key nowMs =
      if (answer .atDeadline key (unitCall limiter nowMs)).allowed then .ok ()
      else .error (.http (tooManyRequests
        (retrySeconds (answer .atDeadline key (unitCall limiter nowMs)).reply.retryAfterMs))) := by
  have hdecision := answer_decision .atDeadline key (unitCall limiter nowMs)
  have hconsume : limiter.consume (evalAt .atDeadline key nowMs) 1 =
      (answer .atDeadline key (unitCall limiter nowMs)).decision := rfl
  rw [enforceAt, enforceInvocationRateLimit, hconsume, Answer.allowed, hdecision]
  rfl

theorem le_retrySeconds (ms : Int) : ms ≤ retrySeconds ms * 1000 := by
  have hceil : (ms : ℚ) / 1000 ≤ ⌈(ms : ℚ) / 1000⌉ := Int.le_ceil _
  have hmax : ⌈(ms : ℚ) / 1000⌉ ≤ retrySeconds ms := le_max_right _ _
  have hms : (ms : ℚ) ≤ ⌈(ms : ℚ) / 1000⌉ * 1000 := by linarith
  have hms' : ms ≤ ⌈(ms : ℚ) / 1000⌉ * 1000 := by exact_mod_cast hms
  omega

/-- From every bucket: the refused calls of a history can be left out and expiry switched off
without any other answer changing; a refused call is told the exact time, within one period, from
which the same cost is allowed if nothing else is allowed before; and the seconds of the
`Retry-After` header cover that time. -/
theorem refusals_exact (limiter : RedisTokenBucketRateLimiter) {nowMs : Int} {key : Option StoredBucket}
    (hkey : Sound limiter nowMs key) :
    (∀ history later : List (Call limiter), InOrder nowMs (history ++ later) →
      answers .atDeadline key (allowedCalls .atDeadline key history ++ later) =
        (answers .atDeadline key history).filter (·.allowed) ++
          answers .atDeadline (after .atDeadline key history) later) ∧
    (∀ history : List (Call limiter), InOrder nowMs history →
      answers .never key history = answers .atDeadline key history) ∧
    (∀ call : Call limiter, nowMs ≤ call.nowMs → (answer .atDeadline key call).allowed = false →
      0 < (answer .atDeadline key call).reply.retryAfterMs ∧
      (answer .atDeadline key call).reply.retryAfterMs ≤ limiter.periodMs ∧
      ∀ (between : List (Call limiter)) (retry : Call limiter),
        InOrder call.nowMs (between ++ [retry]) → retry.cost = call.cost →
        (∀ a ∈ answers .atDeadline (stored .atDeadline key call) between, a.allowed = false) →
        ((answer .atDeadline (after .atDeadline (stored .atDeadline key call) between) retry).allowed = true ↔
          call.nowMs + (answer .atDeadline key call).reply.retryAfterMs ≤ retry.nowMs)) ∧
    (∀ t ≥ nowMs, ∀ error, enforceAt limiter key t = .error error →
      ∃ wait, error = .http (tooManyRequests wait) ∧
        ∀ (between : List (Call limiter)) (t' : Int),
          InOrder t (between ++ [unitCall limiter t']) →
          (∀ a ∈ answers .atDeadline (stored .atDeadline key (unitCall limiter t)) between,
            a.allowed = false) →
          t + wait * 1000 ≤ t' →
          enforceAt limiter
            (after .atDeadline (stored .atDeadline key (unitCall limiter t)) between) t' = .ok ()) := by
  obtain ⟨b, hb⟩ := hkey.represents
  have hrep := hb _ late_atDeadline
  refine ⟨?_, ?_, ?_, ?_⟩
  · intro history later horder
    exact hrep.answers_allowedCalls late_atDeadline horder
  · intro history horder
    exact (hb _ late_never).answers_eq late_never late_atDeadline hrep horder
  · intro call hnow hrefused
    have hlevel : ¬ (call.cost : ℚ) ≤ b.level call.nowMs := by
      intro hg
      rw [(hrep.allowed_iff hnow).mpr hg] at hrefused
      cases hrefused
    refine ⟨?_, ?_, fun between retry horder hcost hbetween =>
      hrep.retry_iff late_atDeadline hnow hrefused horder hcost hbetween⟩
    · rw [hrep.reply_eq hnow]
      exact retryAfterMs_pos hlevel
    · rw [hrep.reply_eq hnow]
      exact retryAfterMs_le hlevel (b.level_nonneg _) call.cost_le
  · intro t ht error herror
    rw [enforceAt_eq] at herror
    split at herror
    next => cases herror
    next hrefused =>
      refine ⟨_, (Except.error.inj herror).symm, fun between t' horder hbetween hwait => ?_⟩
      have hrefused : (answer .atDeadline key (unitCall limiter t)).allowed = false :=
        Bool.eq_false_iff.mpr hrefused
      have hallowed := (hrep.retry_iff late_atDeadline ht hrefused horder rfl hbetween).mpr
      have hcover := le_retrySeconds (answer .atDeadline key (unitCall limiter t)).reply.retryAfterMs
      rw [enforceAt_eq, if_pos]
      apply hallowed
      show t + (answer .atDeadline key (unitCall limiter t)).reply.retryAfterMs ≤ t'
      omega

/-- A bucket that was emptied at time zero. -/
def emptied : StoredBucket := { tokens := 0, updatedAtMs := 0, expiresAtMs := 2000 }

theorem refusals_exact_emptied :
    Sound twoPerSecond 0 (some emptied) ∧
      (answer .atDeadline (after .atDeadline (stored .atDeadline (some emptied) (oneToken 1))
        [oneToken 100]) (oneToken 500)).allowed = true := by
  have hsound : Sound twoPerSecond 0 (some emptied) := by
    intro b hb
    cases hb
    exact ⟨le_rfl, by norm_num [emptied, twoPerSecond], rfl, le_rfl⟩
  have hrefused : (answer .atDeadline (some emptied) (oneToken 1)).allowed = false := by
    decide +kernel
  have hwait : (answer .atDeadline (some emptied) (oneToken 1)).reply.retryAfterMs = 499 := by
    decide +kernel
  have hbetween : ∀ a ∈ answers .atDeadline (stored .atDeadline (some emptied) (oneToken 1))
      [oneToken 100], a.allowed = false := by
    decide +kernel
  refine ⟨hsound, ?_⟩
  have hcall := (refusals_exact twoPerSecond hsound).2.2.1 (oneToken 1) (by decide) hrefused
  apply (hcall.2.2 [oneToken 100] (oneToken 500) ⟨by decide, by decide⟩ rfl hbetween).mpr
  rw [hwait]
  decide

end Serverless.Limiter
