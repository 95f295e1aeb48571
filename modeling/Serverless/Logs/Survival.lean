import Serverless.Library.Queries
import Serverless.Logs.History
import Serverless.Runtime.Protocol

/-!
# Which logs survive

As long as no execution leaves something else in a log file that attempts refer to, every stored
reference leads to the logs of its attempt. A retry that prints anything replaces the logs of the
attempts before it.
-/
namespace Serverless.Logs

open Serverless.Library Serverless.Model Serverless.Runtime

variable {x : DockerRuntimeExecutor}

/-! ## Runs -/

/-- The four kinds of steps, with what they find. -/
inductive Effect (x : DockerRuntimeExecutor) (s : State) : Event → State → Prop where
  | called (c : Ledger.Call) (ledger : Ledger.State) (h : Extends s.ledger.db ledger.db) :
      Effect x s (.call c) { s with ledger := ledger }
  | planned (attemptId : UUID) (task : InvocationTask) (now : Time) (row : InvocationAttempt)
      (hget : s.ledger.db.attempts.get attemptId = some row) (hnone : s.jobs attemptId = none)
      (hid : row.invocationId = task.invocationId) :
      Effect x s (.plan attemptId task now)
        (setJob s attemptId (.planned row (planExecution s.ledger.db task now)))
  | ran (attemptId : UUID) (d : Docker) (input left : List UInt8) (held : InvocationAttempt)
      (plan : Plan) (hjob : s.jobs attemptId = some (.planned held plan)) :
      Effect x s (.run attemptId d input left) (afterRun x s attemptId d input left held plan)
  | finished (attemptId : UUID) (policy : RetryPolicy) (dispatchId : UUID) (now : Time)
      (held : InvocationAttempt) (result : RuntimeExecutionResult) (db : Database)
      (hjob : s.jobs attemptId = some (.returned held result))
      (h : Recorded s.ledger.db db held result) :
      Effect x s (.finish attemptId policy dispatchId now) (afterFinish s attemptId db)

theorem step_effect {s t : State} {e : Event} (h : step x s e = some t) : Effect x s e t := by
  cases e with
  | call c =>
    simp only [step, Option.ite_none_left_eq_some, Bool.not_eq_true, Option.map_eq_some_iff] at h
    obtain ⟨hc, ledger, hledger, rfl⟩ := h
    exact .called c ledger (call_extends hledger hc)
  | plan attemptId task now =>
    simp only [step] at h
    split at h
    · rename_i row hget hnone
      simp only [Option.ite_none_right_eq_some, Option.some.injEq] at h
      obtain ⟨hid, rfl⟩ := h
      exact .planned attemptId task now row hget hnone hid
    · cases h
  | run attemptId d input left =>
    simp only [step] at h
    split at h
    · rename_i held plan hjob
      cases h
      exact .ran attemptId d input left held plan hjob
    · cases h
  | finish attemptId policy dispatchId now =>
    simp only [step] at h
    split at h
    · rename_i held result hjob
      cases h
      exact .finished attemptId policy dispatchId now held result _ hjob (markFinished_recorded rfl)
    · cases h

/-- An execution that opens the log file of its invocation leaves in it what the attempts that
refer to it have printed. -/
def KeepsLogs (x : DockerRuntimeExecutor) (s : State) : Event → Prop
  | .run attemptId d _ left => ∀ held plan, s.jobs attemptId = some (.planned held plan) →
      Logs x d plan → ∀ a ∈ s.ledger.db.attempts, a.id ≠ attemptId →
        a.invocationId = held.invocationId → Refers s a →
        (s.stderr a.id).take x.maxLogBytes = logContents x d left
  | .call _ | .plan .. | .finish .. => True

theorem Sound.step {s t : State} {e : Event} (h : Sound x s) (hok : KeepsLogs x s e)
    (hs : Logs.step x s e = some t) : Sound x t := by
  cases step_effect hs with
  | called c ledger hdb => exact h.call hdb
  | planned attemptId task now row hget hnone hid =>
    refine h.plan hget hnone (fun spec hspec => ?_) (fun _ => planExecution_logsRef)
    rw [planExecution_invocationId hspec, hid]
  | ran attemptId d input left held plan hjob =>
    exact h.run hjob d input left (hok held plan hjob)
  | finished attemptId policy dispatchId now held result db hjob hdb => exact h.finish hjob hdb

theorem sound_of_reachable {s : State} (h : ReachableBy (step x) (KeepsLogs x) init s) : Sound x s :=
  h.invariant (fun _ hi => sound_init hi) fun _ hi hok hs => hi.step hok hs

/-- An attempt with a reference has been finished. -/
theorem Sound.finished {s : State} (h : Sound x s) {a : InvocationAttempt}
    (ha : a ∈ s.ledger.db.attempts) {ref : String} (href : a.logsRef = some ref) :
    s.jobs a.id = some .finished := by
  by_contra hjob
  rw [h.unfinished a ha hjob] at href
  cases href

/-- A reference is there to stay, and the attempt prints nothing any more. -/
def Later (s t : State) : Prop :=
  ∀ a ∈ s.ledger.db.attempts, a.logsRef ≠ none →
    t.stderr a.id = s.stderr a.id ∧ ∃ b ∈ t.ledger.db.attempts, SameLogs a b

theorem Later.trans {s t u : State} (h : Later s t) (h' : Later t u) : Later s u := by
  intro a ha href
  obtain ⟨hstderr, b, hb, hsame⟩ := h a ha href
  obtain ⟨hstderr', c, hc, hsame'⟩ := h' b hb (hsame.logsRef ▸ href)
  rw [hsame.id] at hstderr'
  exact ⟨hstderr'.trans hstderr, c, hc, ⟨hsame'.id.trans hsame.id,
    hsame'.invocationId.trans hsame.invocationId⟩, hsame'.logsRef.trans hsame.logsRef⟩

theorem later_step {s t : State} {e : Event} (h : Sound x s) (hs : step x s e = some t) :
    Later s t := by
  intro a ha href
  obtain ⟨ref, href⟩ := Option.ne_none_iff_exists'.mp href
  have hfin := h.finished ha href
  cases step_effect hs with
  | called c ledger hdb => exact ⟨rfl, hdb.kept a ha⟩
  | planned => exact ⟨rfl, a, ha, .refl a⟩
  | ran attemptId d input left held plan hjob =>
    have hne : a.id ≠ attemptId := by
      intro hid
      rw [hid, hjob] at hfin
      cases hfin
    exact ⟨Function.update_of_ne hne _ _, a, ha, .refl a⟩
  | finished attemptId policy dispatchId now held result db hjob hdb =>
    obtain ⟨b, hb, hsame⟩ := hdb.kept a ha
    obtain ⟨a', ha', hsame', hcase⟩ := hdb.origin b hb
    obtain rfl : a' = a := Table.eq_of_key ha' ha (hsame'.id.symm.trans hsame.id)
    refine ⟨rfl, b, hb, hsame, ?_⟩
    rcases hcase with hold | ⟨hid, -, -⟩
    · exact hold
    · have hheld := (h.job attemptId _ hjob).1.id
      rw [hid, hheld, hjob] at hfin
      cases hfin

/-! ## Results -/

/-- A reference that is stored in one state names, in a later one, a file with the logs of its
attempt. -/
def LogsSurvive (x : DockerRuntimeExecutor) (s t : State) : Prop :=
  ∀ a ∈ s.ledger.db.attempts, ∀ ref, a.logsRef = some ref →
    t.files.read (resolvePath x.workspaceRoot ref) = some ((s.stderr a.id).take x.maxLogBytes)

/-- The API reports the reference of the last attempt of an invocation, if there is one. -/
def LatestReported (db : Database) : Prop :=
  ∀ ownerId invocationId i, db.getInvocation ownerId invocationId = .ok i →
    ∃ ref, db.getLatestLogsRef ownerId invocationId = .ok ref ∧
      ((db.attemptsOf i.id = [] ∧ ref = none) ∨ ∃ a ∈ db.attemptsOf i.id,
        (∀ b ∈ db.attemptsOf i.id, b.attemptNumber ≤ a.attemptNumber) ∧ ref = a.logsRef)

theorem latestReported (db : Database) : LatestReported db := by
  intro ownerId invocationId i hi
  refine ⟨_, by rw [Database.getLatestLogsRef, hi], ?_⟩
  cases hh : ((db.attemptsOf i.id).insertionSort
      fun a b => b.attemptNumber ≤ a.attemptNumber).head? with
  | none =>
    have hlen := congrArg List.length (List.head?_eq_none_iff.mp hh)
    rw [List.length_insertionSort] at hlen
    exact .inl ⟨List.length_eq_zero_iff.mp hlen, rfl⟩
  | some a =>
    obtain ⟨hmem, hgreatest⟩ := head?_insertionSort InvocationAttempt.attemptNumber hh
    exact .inr ⟨a, hmem, hgreatest, rfl⟩

theorem read_logsRefOf (habs : x.storageRoot.isAbsolute) (files : Files (List UInt8))
    (invocationId : UUID) :
    files.read (resolvePath x.workspaceRoot (logsRefOf x invocationId)) =
      files.read (x.logPath invocationId) := by
  have hpath : (x.logPath invocationId).isAbsolute :=
    isAbsolute_join (isAbsolute_join habs _) _
  exact congrArg files (resolvePath_storageRef x.workspaceRoot hpath)

/-- **Every stored reference leads to the logs of its attempt for good, as long as no execution
leaves something else in a log file that attempts refer to.** -/
theorem attempt_logs_kept (habs : x.storageRoot.isAbsolute) {s t : State}
    (hs : ReachableBy (step x) (KeepsLogs x) init s) (ht : Steps (step x) (KeepsLogs x) s t) :
    LogsSurvive x s t ∧ LatestReported t.ledger.db := by
  refine ⟨fun a ha ref href => ?_, latestReported _⟩
  have hlater : Later s t := ht.relation (R := Later)
    (fun _ a ha _ => ⟨rfl, a, ha, .refl a⟩) Later.trans
    (fun hr _ => later_step (sound_of_reachable hr)) hs
  have hsound := sound_of_reachable (hs.run ht)
  obtain ⟨hstderr, b, hb, hsame⟩ := hlater a ha (by rw [href]; exact Option.some_ne_none _)
  have hbref := hsame.logsRef.trans href
  rw [hsound.refs b hb ref hbref, read_logsRefOf habs, hsound.kept b hb, hsame.id, hstderr]
  exact .inl (by rw [hbref]; exact Option.some_ne_none _)

/-- An execution that violates the condition over a stored reference does lose logs. -/
theorem logs_lost (habs : x.storageRoot.isAbsolute) {s t : State}
    (hs : ReachableBy (step x) (KeepsLogs x) init s) {attemptId : UUID} {d : Docker}
    {input left : List UInt8} (ht : step x s (.run attemptId d input left) = some t)
    {held : InvocationAttempt} {plan : Plan} (hjob : s.jobs attemptId = some (.planned held plan))
    (hlogs : Logs x d plan) {a : InvocationAttempt} (ha : a ∈ s.ledger.db.attempts)
    (hinv : a.invocationId = held.invocationId) (href : a.logsRef ≠ none)
    (hne : (s.stderr a.id).take x.maxLogBytes ≠ logContents x d left) : ¬ LogsSurvive x s t := by
  intro hsurvive
  have hsound := sound_of_reachable hs
  obtain ⟨ref, href⟩ := Option.ne_none_iff_exists'.mp href
  have hread := hsurvive a ha ref href
  rw [hsound.refs a ha ref href, read_logsRefOf habs, hinv] at hread
  cases step_effect ht with
  | ran attemptId d input left held' plan' hjob' =>
    cases hjob.symm.trans hjob'
    obtain ⟨-, hspec, -⟩ := hsound.job attemptId _ hjob
    have hnow : (afterRun x s attemptId d input left held plan).files.read
        (x.logPath held.invocationId) = some (logContents x d left) := read_log hspec hlogs
    exact hne (Option.some.inj (hread.symm.trans hnow))

/-! ## Two attempts -/

/-- What the runner prints for a handler that raises. -/
def failure : List Char := ['{', '"', 'o', 'k', '"', ':', 'f', 'a', 'l', 's', 'e', '}']

/-- A worker whose decoder knows that text. -/
def demoWorker : DockerRuntimeExecutor :=
  { demoExecutor with
    lib.loads := fun text =>
      if text = failure then .value (.dict [("ok", .bool false)]) else .decodeError "no JSON" }

/-- A container that fails with some bytes on stderr. -/
def failing (stderr : List UInt8) : Docker where
  client := .ok ()
  packageExists _ := true
  writeInput := .ok ()
  run _ := .ok (some ⟨some "f00d"⟩)
  wait _ := .ok (.dict [("StatusCode", .int 1)])
  elapsedMs := 12
  kill := .ok ()
  stderr := .ok (.bytes stderr)
  stdout := .ok (.bytes (Utf8.encode failure))
  reload := .ok (.dict [])
  remove := .ok ()
  writeLogs := .ok ()
  writeResult := .ok ()
  unlink := .ok ()
  intOf _ := .error (.of "ValueError" "invalid literal")

/-- An attempt from its message on: it is started, fails with a retryable error and is recorded. -/
def failingAttempt (number : Nat) (messageId : StreamId) (attemptId dispatchId : UUID) (start : Time)
    (stderr : List UInt8) : List Event :=
  let message : StreamMessage := ⟨3, 2, 7, number, 0, seconds 30⟩
  [.call (.dispatchPending 100 start [(.returned, start)]),
    .call (.markRunning message messageId false none attemptId start),
    .plan attemptId (parseInvocationTask messageId message false) start,
    .run attemptId (failing stderr) [] [],
    .finish attemptId { maxAttempts := 3, jitter := fun _ => 0 } dispatchId (start + seconds 1)]

/-- The first attempt of an invocation prints one byte. -/
def firstAttempt : List Event :=
  [.call (.createFunction ⟨1, 7, "hello", none⟩),
    .call (.createFunctionVersion (helloVersion 30)),
    .call (.createInvocation { ownerId := 7, functionName := "hello", payload := .null } 3 4 0)] ++
  failingAttempt 1 1 6 9 0 [97]

/-- Some stored reference of one state names a file without its logs in the other. -/
def loses (s t : State) : Bool :=
  s.ledger.db.attempts.rows.any fun a => a.logsRef.any fun ref =>
    t.files.read (resolvePath demoWorker.workspaceRoot ref) ≠
      some ((s.stderr a.id).take demoWorker.maxLogBytes)

/-- **The retry of an invocation overwrites the logs of its first attempt.** -/
theorem retry_overwrites_logs : ∃ s t, Reachable (step demoWorker) init s ∧
    Steps (step demoWorker) (fun _ _ => True) s t ∧ ¬ LogsSurvive demoWorker s t := by
  have h : ((replay (step demoWorker) empty firstAttempt).bind fun s =>
      (replay (step demoWorker) s (failingAttempt 2 2 8 10 (seconds 5) [98])).map (loses s)) =
        some true := by decide +kernel
  obtain ⟨s, hs, ht⟩ := Option.bind_eq_some_iff.mp h
  obtain ⟨t, ht, hlost⟩ := Option.map_eq_some_iff.mp ht
  refine ⟨s, t, ⟨empty, init_empty, steps_of_replay hs⟩, steps_of_replay ht, fun hsurvive => ?_⟩
  obtain ⟨a, ha, hlost⟩ := List.any_eq_true.mp hlost
  cases href : a.logsRef with
  | none => simp [href] at hlost
  | some ref => simp [href, hsurvive a ha ref href] at hlost

/-- An attempt that prints nothing, or has the only row, keeps the logs of the others. -/
def keepsLogs (s : State) : Event → Bool
  | .run attemptId d _ _ =>
    decide (d.stderrBytes = []) || s.ledger.db.attempts.rows.all fun a => a.id = attemptId
  | .call _ | .plan .. | .finish .. => true

theorem keepsLogs_of_check (s : State) (e : Event) (h : keepsLogs s e = true) : KeepsLogs x s e := by
  cases e with
  | run attemptId d input left =>
    intro held plan hjob ⟨spec, hspec, hopens⟩ a ha hne
    rw [keepsLogs, Bool.or_eq_true, decide_eq_true_eq, List.all_eq_true] at h
    rcases h with hsilent | honly
    · exact absurd hsilent hopens.printed
    · exact absurd (of_decide_eq_true (honly a ha)) hne
  | call | plan | finish => trivial

theorem attempt_logs_kept_silent : ∃ s t, ReachableBy (step demoWorker) (KeepsLogs demoWorker) init s ∧
    Steps (step demoWorker) (KeepsLogs demoWorker) s t ∧
    (∃ a ∈ s.ledger.db.attempts, a.logsRef ≠ none) ∧
    LogsSurvive demoWorker s t ∧ LatestReported t.ledger.db := by
  have h : ((replayWhere (step demoWorker) keepsLogs empty firstAttempt).bind fun s =>
      (replayWhere (step demoWorker) keepsLogs s (failingAttempt 2 2 8 10 (seconds 5) [])).map
        fun _ => s.ledger.db.attempts.rows.any fun a => a.logsRef ≠ none) = some true := by
    decide +kernel
  obtain ⟨s, hs, ht⟩ := Option.bind_eq_some_iff.mp h
  obtain ⟨t, ht, hstored⟩ := Option.map_eq_some_iff.mp ht
  obtain ⟨a, ha, hstored⟩ := List.any_eq_true.mp hstored
  have hreach : ReachableBy (step demoWorker) (KeepsLogs demoWorker) init s :=
    ⟨empty, init_empty, steps_of_replayWhere keepsLogs_of_check hs⟩
  have hsteps : Steps (step demoWorker) (KeepsLogs demoWorker) s t :=
    steps_of_replayWhere keepsLogs_of_check ht
  exact ⟨s, t, hreach, hsteps, ⟨a, ha, of_decide_eq_true hstored⟩,
    attempt_logs_kept (by decide +kernel) hreach hsteps⟩

end Serverless.Logs
