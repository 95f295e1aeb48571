import Serverless.Api.Deployment
import Serverless.Api.Routes
import Serverless.Library.Histories
import Serverless.Model.PackagePaths

/-!
# Throttling

The keys of different owners are different, so the limiter answers an owner's invocations as if
nobody else called it: a request is refused exactly when the owner's own earlier requests have left
no token, whoever else is being served. So no owner gets more than the rate in any window of time.
-/
namespace Serverless.Api

open Serverless.Library Serverless.Model Serverless.Limiter

variable {x : Server} {s t : State} {ownerId : UUID}

theorem rateLimitKey_injective {u w : UUID} (h : rateLimitKey u = rateLimitKey w) : u = w := by
  have htext := congrArg String.toList h
  unfold rateLimitKey at htext
  simp only [String.toList_append] at htext
  exact Model.UUID.str_injective (List.append_cancel_left htext)

/-! ## The scripts of an owner -/

/-- The time at which the script of a request is run, if it is run. -/
def RedisOutcome.ranAt : RedisOutcome → Option Int
  | .replied nowMs | .lost nowMs => some nowMs
  | .unreachable => none

def HttpRequest.invokes : HttpRequest → Bool
  | .call _ (.invokeFunction ..) => true
  | _ => false

/-- The time at which an exchange has its script run for an owner. -/
def Exchange.scriptAt (ownerId : UUID) (e : Exchange) : Option Int :=
  if e.request.invokes ∧ e.caller = some ownerId then e.redis.ranAt else none

/-- The calls that some exchanges make on the key of an owner. -/
def scripts (limiter : RedisTokenBucketRateLimiter) (ownerId : UUID) (log : List Exchange) :
    List (Limiter.Call limiter) :=
  log.filterMap fun e => (e.scriptAt ownerId).map (unitCall limiter)

theorem scripts_append (limiter : RedisTokenBucketRateLimiter) (log : List Exchange) (e : Exchange) :
    scripts limiter ownerId (log ++ [e]) =
      scripts limiter ownerId log ++ ((e.scriptAt ownerId).map (unitCall limiter)).toList := by
  unfold scripts
  rw [List.filterMap_append]
  cases h : e.scriptAt ownerId <;> simp [h]

/-- The answer of the limiter to a request of an owner at a time, from the owner's requests only. -/
def ownAnswer (limiter : RedisTokenBucketRateLimiter) (ownerId : UUID) (before : List Exchange)
    (nowMs : Int) : Answer limiter :=
  answer .atDeadline (after .atDeadline none (scripts limiter ownerId before)) (unitCall limiter nowMs)

/-- The keys are what the owners' scripts have left. -/
def KeysOf (x : Server) (s : State) : Prop :=
  ∀ ownerId, s.buckets (rateLimitKey ownerId) = after .atDeadline none (scripts x.limiter ownerId s.log)

/-! ## One request -/

/-- The key of an owner after a request for another owner, or for this one. -/
theorem enforce_buckets (x : Server) (buckets : String → Option StoredBucket) (caller : UUID)
    (redis : RedisOutcome) (ownerId : UUID) :
    (x.enforce buckets caller redis).1 (rateLimitKey ownerId) =
      after .atDeadline (buckets (rateLimitKey ownerId))
        ((if caller = ownerId then redis.ranAt else none).map (unitCall x.limiter)).toList := by
  by_cases hown : caller = ownerId
  · subst hown
    cases redis <;> simp [Server.enforce, RedisOutcome.ranAt, after]
  · have hkey : rateLimitKey ownerId ≠ rateLimitKey caller := fun h => hown (rateLimitKey_injective h).symm
    cases redis <;> simp [Server.enforce, hown, hkey, after]

theorem enforce_decision (x : Server) (buckets : String → Option StoredBucket) (caller : UUID) (nowMs : Int) :
    (x.enforce buckets caller (.replied nowMs)).2 =
      if (answer .atDeadline (buckets (rateLimitKey caller)) (unitCall x.limiter nowMs)).allowed then .ok ()
      else .error (.http (tooManyRequests (retrySeconds
        (answer .atDeadline (buckets (rateLimitKey caller)) (unitCall x.limiter nowMs)).reply.retryAfterMs))) :=
  enforceAt_eq x.limiter (buckets (rateLimitKey caller)) nowMs

theorem throttle_invoke (s : State) (caller : UUID) (redis : RedisOutcome) {route : Route}
    {credentials : Option HTTPAuthorizationCredentials}
    (h : (HttpRequest.call credentials route).invokes = true) :
    x.throttle s caller redis route =
      ({ s with buckets := (x.enforce s.buckets caller redis).1 }, (x.enforce s.buckets caller redis).2) := by
  cases route <;> first | rfl | cases h

theorem throttle_other (s : State) (caller : UUID) (redis : RedisOutcome) {route : Route}
    {credentials : Option HTTPAuthorizationCredentials}
    (h : (HttpRequest.call credentials route).invokes = false) :
    x.throttle s caller redis route = (s, .ok ()) := by
  cases route <;> first | rfl | cases h

theorem caller_of_known {credentials : Option HTTPAuthorizationCredentials} {now : Time}
    (h : x.lib.getCurrentUserId x.settings s.tables.users credentials now = .ok ownerId) (route : Route) :
    x.caller s now (.call credentials route) = some ownerId := by
  rw [Server.caller, h]
  rfl

/-- The keys after a request that was let in. -/
theorem throttle_buckets (s : State) (caller : UUID) (redis : RedisOutcome) (route : Route)
    (credentials : Option HTTPAuthorizationCredentials) (now : Time) (response : HttpResponse)
    (ownerId : UUID) :
    (x.throttle s caller redis route).1.buckets (rateLimitKey ownerId) =
      after .atDeadline (s.buckets (rateLimitKey ownerId))
        ((Exchange.scriptAt ownerId ⟨.call credentials route, now, redis, some caller, response⟩).map
          (unitCall x.limiter)).toList := by
  cases hinvokes : (HttpRequest.call credentials route).invokes with
  | true =>
    rw [throttle_invoke s caller redis hinvokes]
    simp [enforce_buckets, Exchange.scriptAt, hinvokes]
  | false =>
    rw [throttle_other s caller redis hinvokes]
    simp [Exchange.scriptAt, hinvokes, after]

theorem served_buckets {now : Time} {redis : RedisOutcome} {request : HttpRequest}
    {served : State × HttpResponse} (h : Served x s now redis request served) (ownerId : UUID) :
    served.1.buckets (rateLimitKey ownerId) =
      after .atDeadline (s.buckets (rateLimitKey ownerId))
        ((Exchange.scriptAt ownerId ⟨request, now, redis, x.caller s now request, served.2⟩).map
          (unitCall x.limiter)).toList := by
  cases h with
  | registered | notRegistered | login => simp [Exchange.scriptAt, Server.caller, after]
  | unauthorized credentials route hrefused =>
    simp [Exchange.scriptAt, Server.caller, hrefused, Except.toOption, after]
  | limited credentials route hknown hthrottle =>
    rw [caller_of_known hknown]
    exact throttle_buckets _ _ _ _ _ _ _ _
  | performed credentials route hknown hthrottle =>
    rw [caller_of_known hknown, (perform_frame x _ _ now route).2.1]
    exact throttle_buckets _ _ _ _ _ _ _ _

theorem keysOf_of_reachable (h : Reachable (step x) init s) : KeysOf x s := by
  refine h.invariant (fun s hi ownerId => ?_) fun {s e t} _ hi hs ownerId => ?_
  · obtain ⟨-, -, -, hbuckets, hlog⟩ := hi
    rw [hbuckets, hlog]
    rfl
  · rcases step_log hs with ⟨hlog, hbuckets⟩ | ⟨request, now, redis, served, -, hserved, rfl⟩
    · rw [hlog, hbuckets]
      exact hi ownerId
    · have hkey := served_buckets hserved ownerId
      rw [hi ownerId] at hkey
      change served.1.buckets (rateLimitKey ownerId) = _
      rw [hkey, scripts_append, after, after, after, List.foldl_append]

/-! ## Every request of a run -/

/-- The time of an exchange that was answered past the limiter. -/
def Exchange.admittedAt (ownerId : UUID) (e : Exchange) : Option Int :=
  match e.redis with
  | .replied nowMs =>
    if e.request.invokes ∧ e.caller = some ownerId ∧ statusCode e.response ≠ 429 then some nowMs else none
  | .lost _ | .unreachable => none

theorem admittedAt_some {e : Exchange} {nowMs : Int} (h : e.admittedAt ownerId = some nowMs) :
    e.redis = .replied nowMs ∧ e.request.invokes = true ∧ e.caller = some ownerId ∧
      statusCode e.response ≠ 429 := by
  unfold Exchange.admittedAt at h
  split at h
  · rename_i ms hredis
    split at h
    · rename_i hadmitted
      cases h
      exact ⟨hredis, hadmitted⟩
    · cases h
  · cases h
  · cases h

/-- An exchange is answered as the owner's own earlier requests say. -/
def Decided (x : Server) (before : List Exchange) (e : Exchange) : Prop :=
  ∀ ownerId nowMs, e.request.invokes = true → e.caller = some ownerId → e.redis = .replied nowMs →
    if (ownAnswer x.limiter ownerId before nowMs).allowed then statusCode e.response ≠ 429
    else e.response = .error (.http (tooManyRequests
      (retrySeconds (ownAnswer x.limiter ownerId before nowMs).reply.retryAfterMs)))

/-- The limiter is the only one to answer with 429. -/
theorem invoke_statusCode (s : State) (caller : UUID) (now : Time) {route : Route}
    {credentials : Option HTTPAuthorizationCredentials}
    (h : (HttpRequest.call credentials route).invokes = true) :
    statusCode (x.perform s caller now route).2 ≠ 429 := by
  cases route with
  | invokeFunction functionName payload invocationId dispatchId =>
    change statusCode (s.tables.invokeFunctionRoute caller functionName payload invocationId dispatchId
      now).2 ≠ 429
    unfold Tables.invokeFunctionRoute
    dsimp only
    split <;> simp [statusCode, Reply.statusCode, raiseHttp]
  | _ => cases h

theorem decided_served (h : Reachable (step x) init s) {now : Time} {redis : RedisOutcome}
    {request : HttpRequest} {served : State × HttpResponse} (hserved : Served x s now redis request served) :
    Decided x s.log ⟨request, now, redis, x.caller s now request, served.2⟩ := by
  intro ownerId nowMs hinvokes hcaller hreplied
  change redis = _ at hreplied
  subst hreplied
  have hkey := keysOf_of_reachable h ownerId
  have hdecision : (x.enforce s.buckets ownerId (.replied nowMs)).2 =
      if (ownAnswer x.limiter ownerId s.log nowMs).allowed then .ok ()
      else .error (.http (tooManyRequests
        (retrySeconds (ownAnswer x.limiter ownerId s.log nowMs).reply.retryAfterMs))) := by
    rw [enforce_decision, hkey]
    rfl
  cases hserved with
  | registered | notRegistered | login => cases hinvokes
  | unauthorized credentials route hrefused =>
    rw [Server.caller, hrefused] at hcaller
    cases hcaller
  | limited credentials route hknown hthrottle =>
    obtain rfl := Option.some.inj ((caller_of_known hknown route).symm.trans hcaller)
    rw [throttle_invoke s _ _ hinvokes, hdecision] at hthrottle
    split at hthrottle
    · cases hthrottle
    · rename_i hrefused
      cases hthrottle
      rw [if_neg hrefused]
      rfl
  | performed credentials route hknown hthrottle =>
    obtain rfl := Option.some.inj ((caller_of_known hknown route).symm.trans hcaller)
    rw [throttle_invoke s _ _ hinvokes, hdecision] at hthrottle
    split at hthrottle
    · rename_i hallowed
      rw [if_pos hallowed]
      exact invoke_statusCode _ _ _ hinvokes
    · cases hthrottle

theorem decided_of_reachable (h : Reachable (step x) init s) :
    AtEach (Decided x) s.log := by
  refine h.invariant (I := fun s => AtEach (Decided x) s.log) (fun s hi => ?_) fun {s e t} hr hi hs => ?_
  · rw [hi.2.2.2.2]
    exact atEach_nil
  · rcases step_log hs with ⟨hlog, -⟩ | ⟨request, now, redis, served, -, hserved, rfl⟩
    · rw [hlog]
      exact hi
    · exact hi.snoc (decided_served hr hserved)

/-! ## Windows of time -/

/-- What Redis reads on its clock does not go back. -/
def RedisInOrder (_ : Server) (s : State) : Event → Prop
  | .request _ _ redis => ∀ nowMs ∈ redis.ranAt, ∀ e ∈ s.log, ∀ beforeMs ∈ e.redis.ranAt, beforeMs ≤ nowMs
  | .platform _ | .write .. => True

theorem answers_append (expiry : Expiry) (key : Option StoredBucket) {limiter : RedisTokenBucketRateLimiter}
    (calls later : List (Limiter.Call limiter)) :
    answers expiry key (calls ++ later) =
      answers expiry key calls ++ answers expiry (after expiry key calls) later := by
  induction calls generalizing key with
  | nil => rfl
  | cons call calls ih =>
    simp only [List.cons_append, answers, ih]
    rfl

theorem allowedCalls_append (expiry : Expiry) (key : Option StoredBucket)
    {limiter : RedisTokenBucketRateLimiter} (calls : List (Limiter.Call limiter))
    (call : Limiter.Call limiter) :
    allowedCalls expiry key (calls ++ [call]) = allowedCalls expiry key calls ++
      if (answer expiry (after expiry key calls) call).allowed then [call] else [] := by
  simp only [allowedCalls, answers_append, List.filter_append, List.map_append, answers, List.filter_cons]
  split <;> rfl

/-- What was answered past the limiter was allowed by it. -/
theorem admitted_sublist {log : List Exchange}
    (h : AtEach (Decided x) log) (ownerId : UUID) :
    (log.filterMap (Exchange.admittedAt ownerId)).Sublist
      ((allowedCalls .atDeadline none (scripts x.limiter ownerId log)).map (·.nowMs)) := by
  induction log using List.reverseRecOn with
  | nil => exact List.nil_sublist _
  | append_singleton log e ih =>
    rw [List.filterMap_append, scripts_append]
    cases hadmitted : e.admittedAt ownerId with
    | none =>
      have hgrow : (allowedCalls .atDeadline none (scripts x.limiter ownerId log)).Sublist
          (allowedCalls .atDeadline none (scripts x.limiter ownerId log ++
            ((e.scriptAt ownerId).map (unitCall x.limiter)).toList)) := by
        cases e.scriptAt ownerId with
        | none => simp
        | some nowMs =>
          simp only [Option.map_some, Option.toList_some, allowedCalls_append]
          exact List.sublist_append_left _ _
      have hmap := (ih h.init).trans (hgrow.map (·.nowMs))
      simpa [hadmitted] using hmap
    | some nowMs =>
      obtain ⟨hredis, hinvokes, hcaller, hstatus⟩ := admittedAt_some hadmitted
      have hscript : e.scriptAt ownerId = some nowMs := by
        rw [Exchange.scriptAt, if_pos ⟨hinvokes, hcaller⟩, hredis]
        rfl
      have hallowed : (ownAnswer x.limiter ownerId log nowMs).allowed = true := by
        have hlast := h.last ownerId nowMs hinvokes hcaller hredis
        by_contra hno
        rw [if_neg hno] at hlast
        exact hstatus (by rw [hlast]; rfl)
      simp only [hscript, Option.map_some, Option.toList_some, allowedCalls_append]
      rw [if_pos (by exact hallowed), List.map_append]
      simp only [List.filterMap_cons, hadmitted, List.filterMap_nil, List.map_cons, List.map_nil]
      exact (ih h.init).append (List.Sublist.refl [nowMs])

theorem ranAt_of_reachable (h : ReachableBy (step x) (RedisInOrder x) init s) :
    s.log.Pairwise fun e e' => ∀ a ∈ e.redis.ranAt, ∀ b ∈ e'.redis.ranAt, a ≤ b := by
  refine h.invariant (I := fun s => s.log.Pairwise fun e e' =>
    ∀ a ∈ e.redis.ranAt, ∀ b ∈ e'.redis.ranAt, a ≤ b) (fun s hi => ?_) fun {s e t} _ hi horder hs => ?_
  · rw [hi.2.2.2.2]
    exact .nil
  · rcases step_log hs with ⟨hlog, -⟩ | ⟨request, now, redis, served, rfl, -, rfl⟩
    · rwa [hlog]
    · refine List.pairwise_append.mpr ⟨hi, List.pairwise_singleton _ _, fun e he e' he' a ha b hb => ?_⟩
      rw [List.mem_singleton.mp he'] at hb
      exact horder b hb e he a ha

theorem scripts_inOrder {limiter : RedisTokenBucketRateLimiter} {log : List Exchange}
    (h : log.Pairwise fun e e' => ∀ a ∈ e.redis.ranAt, ∀ b ∈ e'.redis.ranAt, a ≤ b) (ownerId : UUID) :
    (scripts limiter ownerId log).Pairwise (·.nowMs ≤ ·.nowMs) := by
  unfold scripts
  refine List.pairwise_filterMap.mpr (h.imp fun {e e'} hle c hc c' hc' => ?_)
  simp only [Option.map_eq_some_iff, Exchange.scriptAt] at hc hc'
  obtain ⟨a, ha, rfl⟩ := hc
  obtain ⟨b, hb, rfl⟩ := hc'
  split at ha
  · split at hb
    · exact hle a ha b hb
    · cases hb
  · cases ha

theorem scripts_unit {limiter : RedisTokenBucketRateLimiter} {log : List Exchange} :
    ∀ c ∈ scripts limiter ownerId log, c.cost = 1 := by
  intro c hc
  obtain ⟨e, -, he⟩ := List.mem_filterMap.mp hc
  obtain ⟨a, -, rfl⟩ := Option.map_eq_some_iff.mp he
  rfl

theorem allowedCalls_sublist (expiry : Expiry) (key : Option StoredBucket)
    {limiter : RedisTokenBucketRateLimiter} (calls : List (Limiter.Call limiter)) :
    (allowedCalls expiry key calls).Sublist calls := by
  induction calls generalizing key with
  | nil => exact .slnil
  | cons call calls ih =>
    rw [allowedCalls_cons]
    split
    · exact (ih _).cons_cons call
    · exact (ih _).cons call

/-- Requests for one token each cost as many tokens as there are requests. -/
theorem costWithin_unit {limiter : RedisTokenBucketRateLimiter} {calls : List (Limiter.Call limiter)}
    (h : ∀ c ∈ calls, c.cost = 1) (a b : ℚ) :
    Bucket.costWithin a b (calls.map Call.request) =
      ((calls.map (·.nowMs)).countP fun nowMs : Int => a ≤ nowMs ∧ nowMs ≤ b : ℕ) := by
  induction calls with
  | nil => simp [Bucket.costWithin]
  | cons c calls ih =>
    obtain ⟨hc, hrest⟩ := List.forall_mem_cons.mp h
    rw [List.map_cons, Bucket.costWithin_cons, ih hrest, List.map_cons, List.countP_cons]
    have htime : (Call.request c).time = (c.nowMs : ℚ) := rfl
    have hcost : (Call.request c).cost = 1 := by
      change (c.cost : ℚ) = 1
      rw [hc]
      exact Int.cast_one
    by_cases hwindow : a ≤ (c.nowMs : ℚ) ∧ (c.nowMs : ℚ) ≤ b
    · simp [htime, hcost, hwindow, add_comm]
    · simp [htime, hwindow]

/-- Owners are throttled separately: a request to invoke is refused exactly when the limiter would
refuse it after the owner's own requests alone, with the wait that they leave, however the requests of
others are mixed in; and as long as the clock of Redis does not go back, in no window of time are more
of an owner's requests let past the limiter than a full bucket and what is earned in the window. -/
theorem owners_are_throttled_separately (h : ReachableBy (step x) (RedisInOrder x) init s) :
    AtEach (Decided x) s.log ∧ ∀ (ownerId : UUID) {a b : ℚ}, a ≤ b →
      (((s.log.filterMap (Exchange.admittedAt ownerId)).countP
        fun nowMs : Int => a ≤ nowMs ∧ nowMs ≤ b : ℕ) : ℚ) ≤
        x.limiter.capacity + (b - a) * x.limiter.capacity / x.limiter.periodMs := by
  have hdecided := decided_of_reachable h.reachable
  refine ⟨hdecided, fun ownerId a b hab => ?_⟩
  let calls := scripts x.limiter ownerId s.log
  have hscripts : calls.Pairwise (·.nowMs ≤ ·.nowMs) :=
    scripts_inOrder (ranAt_of_reachable h) ownerId
  obtain ⟨nowMs, horder⟩ := exists_inOrder hscripts
  obtain ⟨bucket, hbucket⟩ := (sound_none x.limiter nowMs).represents
  have hrep := hbucket _ late_atDeadline
  obtain ⟨htimes, hfrom⟩ := request_inOrder horder
  have hunit : ∀ c ∈ allowedCalls .atDeadline none calls, c.cost = 1 := fun c hc =>
    scripts_unit c ((allowedCalls_sublist _ _ _).subset hc)
  calc (((s.log.filterMap (Exchange.admittedAt ownerId)).countP
        fun nowMs : Int => a ≤ nowMs ∧ nowMs ≤ b : ℕ) : ℚ)
      ≤ (((allowedCalls .atDeadline none calls).map (·.nowMs)).countP
          fun nowMs : Int => a ≤ nowMs ∧ nowMs ≤ b : ℕ) := by
        exact_mod_cast (admitted_sublist hdecided ownerId).countP_le
    _ = Bucket.costWithin a b ((allowedCalls .atDeadline none calls).map Call.request) :=
        (costWithin_unit hunit a b).symm
    _ = Bucket.costWithin a b (bucket.granted (calls.map Call.request)) := by
        rw [hrep.allowedCalls_request late_atDeadline horder]
    _ ≤ x.limiter.capacity + (b - a) * x.limiter.capacity / x.limiter.periodMs :=
        bucket.costWithin_granted_le htimes (fun q hq => hrep.since_le.trans (hfrom q hq)) hab

instance (x : Server) (s : State) (e : Event) : Decidable (RedisInOrder x s e) :=
  match e with
  | .request _ _ redis => inferInstanceAs
      (Decidable (∀ nowMs ∈ redis.ranAt, ∀ e ∈ s.log, ∀ beforeMs ∈ e.redis.ranAt, beforeMs ≤ nowMs))
  | .platform _ | .write .. => inferInstanceAs (Decidable True)

/-- Two of the three invocations in a minute are let past the limiter. -/
theorem owners_are_throttled_separately_ada :
    ∃ s, ReachableBy (step demoServer) (RedisInOrder demoServer) init s ∧
      s.log.filterMap (Exchange.admittedAt 7) = [3000, 4000] ∧
      (((s.log.filterMap (Exchange.admittedAt 7)).countP
        fun nowMs : Int => (0 : ℚ) ≤ nowMs ∧ (nowMs : ℚ) ≤ 6000 : ℕ) : ℚ) ≤
        2 + (6000 - 0) * 2 / (60 * 1000) := by
  obtain ⟨s, hs, hp⟩ := reachableBy_of_replayWhere (step demoServer) adaHurries
    (fun s => s.log.filterMap (Exchange.admittedAt 7) = [3000, 4000])
    (fun s e (hc : decide (RedisInOrder demoServer s e) = true) => of_decide_eq_true hc) init_start
    (by decide +kernel)
  have hwindow : (0 : ℚ) ≤ 6000 := by norm_num
  refine ⟨s, hs, of_decide_eq_true hp, ((owners_are_throttled_separately hs).2 7 hwindow).trans_eq ?_⟩
  norm_num [demoServer, Limiter.twoPerSecond, RedisTokenBucketRateLimiter.periodMs]

end Serverless.Api
