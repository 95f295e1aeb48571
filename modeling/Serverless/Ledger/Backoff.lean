import Serverless.Ledger.Origins

/-!
# Backoff under one clock

The complete-call system with a clock that every process reads and that never goes back.
An attempt that a message of its own number starts has waited for the outbox row of that
number; one that an older message starts finds no such row, and none is added later.
-/
namespace Serverless.Ledger

open Serverless.Library Serverless.Model

/-- The clock readings of a call, in the order it takes them. -/
def Call.readings : Call → List Time
  | .createFunction _ | .createFunctionVersion _ | .markWorkersOffline _ => []
  | .createInvocation _ _ _ now => [now]
  | .dispatchPending _ now outcomes => now :: outcomes.map (·.2)
  | .markRunning _ _ _ _ _ now => [now]
  | .markFinished _ _ _ _ _ now => [now]
  | .recoverStaleWorkers _ _ now => [now]
  | .registerWorker _ _ _ _ now => [now]
  | .recordHeartbeat _ _ _ now => [now]
  | .markOffline _ now => [now]

/-- The clock after readings that never go back, if these are such readings. -/
def readClock : Time → List Time → Option Time
  | clock, [] => some clock
  | clock, now :: later => if clock ≤ now then readClock now later else none

theorem readClock_some {clock clock' : Time} {readings : List Time}
    (h : readClock clock readings = some clock') :
    clock ≤ clock' ∧ ∀ now ∈ readings, clock ≤ now ∧ now ≤ clock' := by
  induction readings generalizing clock with
  | nil =>
    cases h
    exact ⟨le_rfl, fun now hm => absurd hm List.not_mem_nil⟩
  | cons first later ih =>
    simp only [readClock, Option.ite_none_right_eq_some] at h
    obtain ⟨hle, h⟩ := h
    obtain ⟨hend, hlater⟩ := ih h
    refine ⟨hle.trans hend, fun now hm => ?_⟩
    rcases List.mem_cons.mp hm with rfl | hm
    · exact ⟨hle, hend⟩
    · exact ⟨hle.trans (hlater now hm).1, (hlater now hm).2⟩

/-- The platform with the last reading of its clock. -/
structure Clocked where
  clock : Time
  ledger : State

namespace Clocked

def step (s : Clocked) (c : Call) : Option Clocked :=
  (readClock s.clock c.readings).bind fun clock =>
    (Ledger.step s.ledger c).map fun ledger => { clock := clock, ledger := ledger }

def init (s : Clocked) : Prop := Ledger.init s.ledger

theorem step_some {s t : Clocked} {c : Call} (h : step s c = some t) :
    Ledger.step s.ledger c = some t.ledger ∧ s.clock ≤ t.clock ∧
      ∀ now ∈ c.readings, s.clock ≤ now ∧ now ≤ t.clock := by
  obtain ⟨clock, hclock, h⟩ := Option.bind_eq_some_iff.mp h
  obtain ⟨ledger, hs, rfl⟩ := Option.map_eq_some_iff.mp h
  exact ⟨hs, readClock_some hclock⟩

theorem reachable_ledger {s : Clocked} (h : Reachable step init s) :
    Reachable Ledger.step Ledger.init s.ledger :=
  ReachableBy.project (f := Clocked.ledger) (fun _ hi => hi)
    (fun {_ c _} _ hs => ⟨c, trivial, (step_some hs).1⟩) h

end Clocked

/-- What the outbox, the stream and the attempts keep about time. -/
structure Punctual (s : Clocked) : Prop where
  published : ∀ m ∈ s.ledger.stream, ∃ d ∈ s.ledger.db.dispatches,
    d.invocationId = m.invocationId ∧ d.attemptNumber = m.attemptNumber ∧ d.availableAt ≤ s.clock
  waited : ∀ a ∈ s.ledger.db.attempts, ∀ d ∈ s.ledger.db.dispatches,
    a.invocationId = d.invocationId → a.attemptNumber = d.attemptNumber →
      d.availableAt ≤ a.startedAt

namespace Punctual

theorem init {s : Clocked} (h : Clocked.init s) : Punctual s := by
  obtain ⟨functions, versions, hs⟩ := h
  constructor
  · intro m hm
    rw [hs] at hm
    exact absurd hm List.not_mem_nil
  · intro a ha
    rw [hs] at ha
    exact absurd ha (Table.not_mem_empty a)

/-- A message was published when its row was due. -/
theorem published_step {s t : Clocked} {c : Call} (h : Punctual s) (hinv : Inv s.ledger)
    (hs : Clocked.step s c = some t) : ∀ m ∈ t.ledger.stream, ∃ d ∈ t.ledger.db.dispatches,
      d.invocationId = m.invocationId ∧ d.attemptNumber = m.attemptNumber ∧
        d.availableAt ≤ t.clock := by
  obtain ⟨hs, hclock, hnow⟩ := Clocked.step_some hs
  obtain ⟨clock, ledger⟩ := t
  have he := step_effect hs
  have hold : ∀ m ∈ s.ledger.stream, ∃ d ∈ ledger.db.dispatches,
      d.invocationId = m.invocationId ∧ d.attemptNumber = m.attemptNumber ∧
        d.availableAt ≤ clock := by
    intro m hm
    obtain ⟨d, hd, hdi, hdn, hda⟩ := h.published m hm
    obtain ⟨d', hd', hi, hn, ha⟩ := he.dispatch_kept hinv.numbered hd
    exact ⟨d', hd', hi.trans hdi, hn.trans hdn, ha.trans_le (hda.trans hclock)⟩
  cases he with
  | unrelated | created | marked | finished | recovered => exact hold
  | dispatched limit now outcomes =>
    intro m hm
    rcases mem_publishAll_stream hm with hm | ⟨d, hd, i, hget, rfl⟩
    · exact hold m hm
    · obtain ⟨hd, -, hdue, -⟩ := Database.mem_dueDispatches hd
      obtain ⟨d', hd', hi, hn, ha⟩ :=
        Effect.dispatch_kept hinv.numbered (.dispatched limit now outcomes) hd
      refine ⟨d', hd', hi.trans (Table.get_key hget).symm, hn, ha.trans_le ?_⟩
      exact hdue.trans (hnow now List.mem_cons_self).2

/-- An attempt that has just started has not overtaken an outbox row. -/
theorem waited_started {s t : Clocked} {c : Call} (h : Punctual s)
    (hs : Clocked.step s c = some t) {a : InvocationAttempt} {message : StreamMessage}
    {i : Invocation} (ha : StartedBy s.ledger c a message i) {d : InvocationDispatch}
    (hd : d ∈ s.ledger.db.dispatches) (hi : d.invocationId = i.id)
    (hn : d.attemptNumber = i.attemptCount + 1) : d.availableAt ≤ a.startedAt := by
  rcases ha.due with hm | hnone
  · -- the message of this number was published when its row was due
    obtain ⟨e, he, hei, hen, hea⟩ := h.published message ha.published
    have hde : d = e := by
      refine Database.dispatch_eq_of_number hd he ?_ ?_
      · rw [hi, hei, Table.get_key ha.found]
      · rw [hn, hen, hm]
    obtain ⟨messageId, recovered, workerId, attemptId, rfl⟩ := ha.call
    rw [hde]
    exact hea.trans ((Clocked.step_some hs).2.2 a.startedAt List.mem_cons_self).1
  · exact absurd ⟨d, hd, hi, hn⟩ hnone

theorem step {s t : Clocked} {c : Call} (h : Punctual s) (hinv : Inv s.ledger)
    (hs : Clocked.step s c = some t) : Punctual t := by
  refine ⟨published_step h hinv hs, fun a ha d hd hi hn => ?_⟩
  have hledger := (Clocked.step_some hs).1
  have he := step_effect hledger
  rcases he.attempt_origin ha with ⟨a₀, ha₀, hai, han, hat⟩ | ⟨message, i, hstart⟩
  · rw [← hat]
    rcases he.dispatch_origin hinv.numbered hd with ⟨d₀, hd₀, hdi, hdn, hda⟩ | ⟨-, hnew⟩
    · rw [← hda]
      exact h.waited a₀ ha₀ d₀ hd₀ (by rw [hai, hi, hdi]) (by rw [han, hn, hdn])
    · -- a row that is added now has a number that no attempt has
      exact absurd (han.trans hn) (hnew a₀ ha₀ (hai.trans hi))
  · rw [hstart.dispatches hledger] at hd
    refine waited_started h hs hstart hd ?_ ?_
    · rw [← hi, hstart.invocationId]
    · rw [← hn, hstart.number]

end Punctual

theorem punctual_reachable {s : Clocked} (h : Reachable Clocked.step Clocked.init s) :
    Punctual s :=
  h.invariant (fun _ hi => .init hi) fun hr hp hs =>
    hp.step (inv_reachable (Clocked.reachable_ledger hr)) hs

/-- **Backoff cannot be bypassed.** -/
theorem backoff_respected {s : Clocked} (h : Reachable Clocked.step Clocked.init s)
    {a : InvocationAttempt} (ha : a ∈ s.ledger.db.attempts) {d : InvocationDispatch}
    (hd : d ∈ s.ledger.db.dispatches) (hi : a.invocationId = d.invocationId)
    (hn : a.attemptNumber = d.attemptNumber) : d.availableAt ≤ a.startedAt :=
  (punctual_reachable h).waited a ha d hd hi hn

/-- A container that could not be started: the second attempt waits for its outbox row. -/
def backoffRun : List Call :=
  [.createFunction ⟨1, 7, "hello", none⟩,
    .createFunctionVersion (helloVersion 30),
    .createInvocation { ownerId := 7, functionName := "hello", payload := .null } 3 4 0,
    .dispatchPending 100 0 [(.returned, 0)],
    .markRunning ⟨3, 2, 7, 1, 0, seconds 30⟩ 1 false none 6 0,
    .markFinished 3 6 (.failed "DockerException" "no daemon")
      { maxAttempts := 3, jitter := fun _ => 0 } 9 (seconds 1),
    .dispatchPending 100 (seconds 2) [(.returned, seconds 2)],
    .markRunning ⟨3, 2, 7, 2, 0, seconds 30⟩ 2 false none 8 (seconds 3)]

theorem backoff_respected_second : ∃ s, Reachable Clocked.step Clocked.init s ∧
    ∃ a ∈ s.ledger.db.attempts, ∃ d ∈ s.ledger.db.dispatches, a.attemptNumber = 2 ∧
      d.attemptNumber = 2 ∧ d.availableAt = seconds 2 ∧ d.availableAt ≤ a.startedAt := by
  obtain ⟨s, hs, hp⟩ := reachable_of_replay Clocked.step backoffRun
    (fun s => s.ledger.db.attempts.rows.any fun a => s.ledger.db.dispatches.rows.any fun d =>
      a.attemptNumber = 2 ∧ d.attemptNumber = 2 ∧ d.availableAt = seconds 2 ∧
        a.invocationId = d.invocationId)
    (show Clocked.init ⟨0, empty⟩ from init_empty) (by decide +kernel)
  simp only [List.any_eq_true, decide_eq_true_eq] at hp
  obtain ⟨a, ha, d, hd, han, hdn, hat, hi⟩ := hp
  exact ⟨s, hs, a, ha, d, hd, han, hdn, hat,
    backoff_respected hs ha hd hi (han.trans hdn.symm)⟩

end Serverless.Ledger
