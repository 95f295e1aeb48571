import Serverless.Ledger.Life
import Serverless.Ledger.Publishing
import Serverless.Ledger.RecoveryPass

/-!
# Every invocation ends

An invocation that waits has a row in the outbox or a message to be redelivered, one that runs has a
running attempt. So in an infinite run that is fair to the outbox, to the consumers and to the
recovery, its progress goes up until it is terminal.
-/
namespace Serverless.Ledger

open Serverless.Library Serverless.Model

variable {s t : State} {c : Call} {i j : Invocation}

def Waiting (i : Invocation) : Prop := i.status = .queued ∨ i.status = .retrying

/-! ## What an invocation waits for -/

/-- `mark_running` does not turn this message away as obsolete or as too early. -/
structure Startable (db : Database) (i : Invocation) (m : StreamMessage) (recovered : Bool) : Prop where
  message : m.invocationId = i.id
  due : m.attemptNumber = i.attemptCount + 1 ∨ m.attemptNumber ≤ i.attemptCount ∧ recovered = true ∧
    ¬ db.scheduledRetry i.id (i.attemptCount + 1)

/-- The call handles such a message, and the identifier that it draws for the attempt is new. -/
def Delivers (s : State) (i : Invocation) (c : Call) : Prop :=
  ∃ m messageId recovered workerId attemptId now,
    c = .markRunning m messageId recovered workerId attemptId now ∧ Startable s.db i m recovered ∧
      ∀ a ∈ s.db.attempts, a.id ≠ attemptId

/-- **A delivery starts the invocation, or finds it expired.** -/
theorem Delivers.moves (h : Delivers s i c) (hinv : Inv s) (hi : i ∈ s.db.invocations) (hw : Waiting i)
    (hs : step s c = some t) : ∃ j ∈ t.db.invocations, Moves i j := by
  obtain ⟨m, messageId, recovered, workerId, attemptId, now, rfl, ⟨hid, hdue⟩, hfresh⟩ := h
  simp only [step, Option.ite_none_right_eq_some, Option.some.injEq] at hs
  obtain ⟨hm, rfl⟩ := hs
  have hget : s.db.invocations.get m.invocationId = some i := hid ▸ Table.get_of_mem hi
  rcases hm' : markRunning s.db (parseInvocationTask messageId m recovered) workerId attemptId now with ⟨db', r⟩
  have hsame : ∀ {k}, s.db.invocations.get m.invocationId = some k → i = k := fun hk =>
    Option.some.inj (hget.symm.trans hk)
  cases markRunning_cases hm' with
  | missing hnone => cases hget.symm.trans hnone
  | terminal k hk ht =>
    obtain rfl := hsame hk
    exact absurd ht (TerminalKept.waiting_not_terminal hw)
  | superseded k hk hrun hn =>
    obtain rfl := hsame hk
    rcases hw with hw | hw <;> cases hw.symm.trans hrun
  | expired k hk ht hrun hd =>
    exact ⟨_, Table.mem_modify_self (by exact fun _ => ⟨rfl, rfl⟩) hget, .expire hw now⟩
  | future k hk ht hd hn hearly =>
    obtain rfl := hsame hk
    rcases hearly with hrun | hlt
    · rcases hw with hw | hw <;> cases hw.symm.trans hrun
    · change i.attemptCount + 1 < m.attemptNumber at hlt
      omega
  | late k hk _ hd hn hobsolete =>
    obtain rfl := hsame hk
    change m.attemptNumber ≤ i.attemptCount at hn
    rcases hdue with hdue | ⟨-, htrue, hnot⟩
    · omega
    · rcases hobsolete with hfalse | hscheduled
      · exact absurd (htrue.symm.trans hfalse) (by decide)
      · exact absurd hscheduled hnot
  | rejected k violation hk _ hv =>
    obtain rfl := hsame hk
    have hnext := (hinv.numbered.each i hi).numbers (i.attemptCount + 1)
    have hkey : s.db.attempts.get (newAttempt (parseInvocationTask messageId m recovered) workerId attemptId
        (i.attemptCount + 1) now).id = none := Table.get_eq_none.mpr hfresh
    obtain ⟨attempts, hok⟩ := Table.insert_ok hkey fun x hx a ha hax => by
      have hpair := hax.trans hx.symm
      simp only [InvocationAttempt.invocationNumber, newAttempt, Option.some.injEq, Prod.mk.injEq] at hpair
      have hle := (hnext.mp ⟨a, ha, hpair.1.trans hid, hpair.2⟩).2
      omega
    cases hok.symm.trans hv
  | started k attempts hk _ hd hn hv =>
    obtain rfl := hsame hk
    exact ⟨_, Table.mem_modify_self (by exact fun _ => ⟨rfl, rfl⟩) hget, .start hw now⟩

/-- What keeps an invocation from being forgotten. -/
structure Backlog (s : State) : Prop where
  first : ∀ i ∈ s.db.invocations, s.db.scheduledRetry i.id 1
  started : ∀ a ∈ s.db.attempts, ∃ m ∈ s.stream, m.invocationId = a.invocationId ∧
    m.attemptNumber ≤ a.attemptNumber

namespace Backlog

theorem init (h : Ledger.init s) : Backlog s := by
  obtain ⟨functions, versions, rfl⟩ := h
  constructor <;> intro x hx <;> exact absurd hx (Table.not_mem_empty x)

theorem first_step (h : Backlog s) (he : Effect s c t) :
    ∀ i ∈ t.db.invocations, t.db.scheduledRetry i.id 1 := by
  intro i hi
  have hold : ∀ k ∈ s.db.invocations, k.id = i.id → t.db.scheduledRetry i.id 1 := by
    intro k hk hki
    obtain ⟨d, hd, hdi, hdn⟩ := h.first k hk
    obtain ⟨d', hd', hi', hn'⟩ := he.dispatch_mem hd
    exact ⟨d', hd', hi'.trans (hdi.trans hki), hn'.trans hdn⟩
  rcases he.invocation_origin hi with ⟨k, hk, hki⟩ | ⟨_, version, invocationId, dispatchId, now, rfl, rfl, hnone⟩
  · exact hold k hk hki.id.symm
  · cases he with
    | unrelated c db hdb ha hd =>
      exact hold _ (hdb ▸ hi) rfl
    | created request version invocationId dispatchId now db hc =>
      obtain ⟨_, _, -, hd, rfl⟩ := insertInvocation_ok hc
      exact ⟨_, (Table.mem_insert hd).mpr (.inr rfl), rfl, rfl⟩

theorem started_step (h : Backlog s) (hinv : Inv s) (he : Effect s c t) : ∀ a ∈ t.db.attempts,
    ∃ m ∈ t.stream, m.invocationId = a.invocationId ∧ m.attemptNumber ≤ a.attemptNumber := by
  intro a ha
  rcases he.attempt_origin ha with ⟨b, hb, hbi, hbn, -⟩ | ⟨m, i, hstart⟩
  · obtain ⟨m, hm, hmi, hmn⟩ := h.started b hb
    exact ⟨m, he.outbox.stream_subset hm, hmi.trans hbi, hmn.trans hbn.le⟩
  · refine ⟨m, he.outbox.stream_subset hstart.published, ?_, ?_⟩
    · rw [hstart.invocationId, Table.get_key hstart.found]
    · obtain ⟨d, hd, hdi, hdn⟩ := hinv.published m hstart.published
      have hbound := (hinv.numbered.each i (Table.get_mem hstart.found)).bound d hd
        (hdi.trans (Table.get_key hstart.found).symm)
      rw [hstart.number]
      omega

end Backlog

theorem backlog_reachable (h : Reachable step init s) : Backlog s :=
  h.invariant (fun _ hi => .init hi) fun hr hb hs =>
    ⟨hb.first_step (step_effect hs), hb.started_step (inv_reachable hr) (step_effect hs)⟩

/-- An invocation that waits has the row of its next attempt in the outbox, or an older message that
can start it when it is redelivered. -/
theorem Backlog.waiting (h : Backlog s) (hinv : Inv s) (hi : i ∈ s.db.invocations) :
    s.db.scheduledRetry i.id (i.attemptCount + 1) ∨ ∃ m ∈ s.stream, Startable s.db i m true := by
  by_cases hscheduled : s.db.scheduledRetry i.id (i.attemptCount + 1)
  · exact .inl hscheduled
  right
  have hcount : 1 ≤ i.attemptCount := by
    by_contra hzero
    have hfirst := h.first i hi
    have hnone : i.attemptCount = 0 := by omega
    rw [hnone] at hscheduled
    exact hscheduled hfirst
  obtain ⟨a, ha, hai, han⟩ := ((hinv.numbered.each i hi).numbers i.attemptCount).mpr ⟨hcount, le_rfl⟩
  obtain ⟨m, hm, hmi, hmn⟩ := h.started a ha
  exact ⟨m, hm, hmi.trans hai, .inr ⟨hmn.trans han.le, rfl, hscheduled⟩⟩

/-! ## Fair runs -/

/-- An attempt of this invocation and number is running. -/
def RunsAttempt (db : Database) (invocationId : UUID) (number : Nat) (b : InvocationAttempt) : Prop :=
  b ∈ db.attempts ∧ b.invocationId = invocationId ∧ b.attemptNumber = number ∧ b.status = .running

/-- The worker of the attempt has not gone offline, but has not been heard of after this time. -/
def Silent (db : Database) (b : InvocationAttempt) (last : Time) : Prop :=
  ∃ w ∈ db.workers, b.workerId = some w.id ∧ w.status ≠ .offline ∧ w.lastHeartbeat ≤ last

/-- A dispatch pass that takes rows and reports no failure. -/
def CleanPass (s : Clocked) (c : Call) : Prop :=
  ∃ limit now outcomes, c = .dispatchPending limit now outcomes ∧ 1 ≤ limit ∧
    (dispatchPending s.ledger.db s.ledger.stream limit now outcomes).2.2.failed = 0

/-- What a run has to do for the invocations to get on. Attempt limits are bounded by `N`, and worker
timeouts by `S` seconds. -/
structure Fair (N S : Nat) (x : Execution Clocked.step Clocked.init) : Prop where
  limited : ∀ n, UsesLimit N (x.state n).ledger (x.event n)
  clock : ∀ time : Time, ∃ n, time < (x.state n).clock
  passes : ∀ n, ∃ k, n ≤ k ∧ CleanPass (x.state k) (x.event k)
  -- an invocation with a message that can start it is started, unless something else comes first
  deliveries : ∀ n, ∀ i ∈ (x.state n).ledger.db.invocations, Waiting i →
    (∃ m ∈ (x.state n).ledger.stream, ∃ recovered, Startable (x.state n).ledger.db i m recovered) →
    ∃ k, n ≤ k ∧ (i ∉ (x.state k).ledger.db.invocations ∨ Delivers (x.state k).ledger i (x.event k))
  -- an attempt ends, or its worker falls silent
  attempts : ∀ n b, b ∈ (x.state n).ledger.db.attempts → b.status = .running → ∃ k, n ≤ k ∧
    ((∀ a, ¬ RunsAttempt (x.state k).ledger.db b.invocationId b.attemptNumber a) ∨
      ∃ last, ∀ m, k ≤ m → ∀ a, RunsAttempt (x.state m).ledger.db b.invocationId b.attemptNumber a →
        Silent (x.state m).ledger.db a last)
  -- a recovery pass returns: its commit is not refused
  recoveries : ∀ n, ∃ k, n ≤ k ∧ ∃ staleAfterSeconds maxAttempts now summary,
    x.event k = .recoverStaleWorkers staleAfterSeconds maxAttempts now ∧ staleAfterSeconds ≤ S ∧
      (recoverStaleWorkers (x.state k).ledger.db staleAfterSeconds maxAttempts now).2 = .ok summary

section

variable {N S : Nat} {x : Execution Clocked.step Clocked.init}

theorem clock_mono {n k : Nat} (h : n ≤ k) : (x.state n).clock ≤ (x.state k).clock := by
  induction k, h using Nat.le_induction with
  | base => exact le_rfl
  | succ k _ ih => exact ih.trans (Clocked.step_some (x.next k)).2.1

theorem Fair.clock_from (hx : Fair N S x) (time : Time) (n : Nat) :
    ∃ k, n ≤ k ∧ ∀ m, k ≤ m → time < (x.state m).clock := by
  obtain ⟨k, hk⟩ := hx.clock time
  exact ⟨max n k, le_max_left _ _, fun m hm => hk.trans_le (clock_mono ((le_max_right _ _).trans hm))⟩

theorem ledger_reachable (x : Execution Clocked.step Clocked.init) (n : Nat) :
    Reachable step init (x.state n).ledger :=
  Clocked.reachable_ledger (x.reachable n)

/-- The record of an invocation later in the run. -/
theorem exists_later {n k : Nat} (h : n ≤ k) (hi : i ∈ (x.state n).ledger.db.invocations) :
    ∃ j ∈ (x.state k).ledger.db.invocations, Later i j := by
  induction k, h using Nat.le_induction with
  | base => exact ⟨i, hi, .refl i⟩
  | succ k _ ih =>
    obtain ⟨j, hj, hij⟩ := ih
    obtain ⟨l, hl, hjl⟩ := laterRecords_step (ledger_reachable x k) (Clocked.step_some (x.next k)).1 j hj
    exact ⟨l, hl, hij.trans hjl⟩

/-- Later in the run, the invocation has got on or its record is the same. -/
theorem got_on_or_same {n k : Nat} (h : n ≤ k) (hi : i ∈ (x.state n).ledger.db.invocations) :
    (∃ j ∈ (x.state k).ledger.db.invocations, Later i j ∧ progress i < progress j) ∨
      i ∈ (x.state k).ledger.db.invocations := by
  obtain ⟨j, hj, hij⟩ := exists_later h hi
  rcases hij.forward with rfl | ⟨-, hlt⟩
  · exact .inr hj
  · exact .inl ⟨j, hj, hij, hlt⟩

/-- The invocation gets on. -/
def GetsOn (x : Execution Clocked.step Clocked.init) (n : Nat) (i : Invocation) : Prop :=
  ∃ k, n ≤ k ∧ ∃ j ∈ (x.state k).ledger.db.invocations, Later i j ∧ progress i < progress j

theorem GetsOn.of_later {n k : Nat} (hk : n ≤ k) (h : GetsOn x k i) : GetsOn x n i := by
  obtain ⟨m, hm, hrest⟩ := h
  exact ⟨m, hk.trans hm, hrest⟩

/-- **A message that can start a waiting invocation gets it on.** -/
theorem Fair.startable_gets_on (hx : Fair N S x) {n : Nat} (hi : i ∈ (x.state n).ledger.db.invocations)
    (hw : Waiting i) {m : StreamMessage} (hm : m ∈ (x.state n).ledger.stream) {recovered : Bool}
    (hstart : Startable (x.state n).ledger.db i m recovered) : GetsOn x n i := by
  obtain ⟨k, hk, hgone⟩ := hx.deliveries n i hi hw ⟨m, hm, recovered, hstart⟩
  rcases got_on_or_same hk hi with hon | hsame
  · exact ⟨k, hk, hon⟩
  · rcases hgone with hgone | hdelivers
    · exact absurd hsame hgone
    · obtain ⟨j, hj, hmove⟩ := hdelivers.moves (inv_reachable (ledger_reachable x k)) hsame hw
        (Clocked.step_some (x.next k)).1
      have hstarted := ((inv_reachable (ledger_reachable x k)).numbered.each i hsame).started
      exact ⟨k + 1, by omega, j, hj, hmove.later hstarted, hmove.progress_lt hstarted⟩

/-- **A row of the outbox is published.** -/
theorem Fair.publishes (hx : Fair N S x) {n : Nat} {d : InvocationDispatch}
    (hd : d ∈ (x.state n).ledger.db.dispatches) : ∃ k, n ≤ k ∧ IsPublished (x.state k) d := by
  obtain ⟨n₁, hn₁, hclock⟩ := hx.clock_from (max d.createdAt d.availableAt) n
  -- from then on the row is due and whatever is created is younger
  have hrow : ∀ k, n ≤ k → ∃ d' ∈ (x.state k).ledger.db.dispatches, SameRow d d' := by
    intro k hk
    induction k, hk using Nat.le_induction with
    | base => exact ⟨d, hd, .refl d⟩
    | succ k _ ih =>
      obtain ⟨d', hd', hsame⟩ := ih
      obtain ⟨e, he, hde, -⟩ := (step_effect (Clocked.step_some (x.next k)).1).outbox.row_later hd'
      exact ⟨e, he, hsame.trans hde⟩
  have hqueue : ∀ k, n₁ ≤ k → InQueue d (x.state k) := fun k hk =>
    ⟨hrow k (hn₁.trans hk), (le_max_left _ _).trans_lt (hclock k hk)⟩
  have hahead : ∀ {k m}, n₁ ≤ k → k ≤ m → IsPublished (x.state m) d ∨
      ahead (x.state m).ledger.db d ≤ ahead (x.state k).ledger.db d := by
    intro k m hk hm
    induction m, hm using Nat.le_induction with
    | base => exact .inr le_rfl
    | succ m hkm ih =>
      rcases ih with hpublished | hle
      · exact .inl (hpublished.step (x.next m))
      · rcases ((hqueue m (hk.trans hkm)).step (x.next m)).2 with hpublished | hle'
        · exact .inl hpublished
        · exact .inr (by omega)
  have hrank : ∀ n, ∃ k, n ≤ k ∧ (IsPublished (x.state (n₁ + k)) d ∨
      ahead (x.state (n₁ + k)).ledger.db d < ahead (x.state (n₁ + n)).ledger.db d) := by
    intro n
    obtain ⟨k, hk, limit, now, outcomes, hevent, hlimit, hclean⟩ := hx.passes (n₁ + n)
    obtain ⟨l, rfl⟩ : ∃ l, k = n₁ + l := ⟨k - n₁, by omega⟩
    refine ⟨l + 1, by omega, ?_⟩
    rcases hahead (by omega : n₁ ≤ n₁ + n) hk with hpublished | hle
    · exact .inl (hpublished.step (x.next _))
    · have hs := x.next (n₁ + l)
      have hnow : (x.state (n₁ + l)).clock ≤ now :=
        ((Clocked.step_some hs).2.2 now (by rw [hevent]; exact List.mem_cons_self)).1
      have hdue : d.availableAt ≤ now :=
        (le_max_right _ _).trans ((hclock _ (by omega)).le.trans hnow)
      refine ((hqueue (n₁ + l) (by omega)).step hs).2.imp_right fun hstep => ?_
      rw [hevent, turns, if_pos ⟨hdue, hclean⟩] at hstep
      change ahead (x.state (n₁ + l + 1)).ledger.db d < _
      omega
  obtain ⟨k, -, hk⟩ := eventually_of_rank _ hrank 0
  exact ⟨n₁ + k, by omega, hk⟩

/-- **A waiting invocation gets on.** -/
theorem Fair.waiting_gets_on (hx : Fair N S x) {n : Nat} (hi : i ∈ (x.state n).ledger.db.invocations)
    (hw : Waiting i) : GetsOn x n i := by
  rcases (backlog_reachable (ledger_reachable x n)).waiting (inv_reachable (ledger_reachable x n)) hi with
    ⟨d, hd, hdi, hdn⟩ | ⟨m, hm, hstart⟩
  · obtain ⟨k, hk, hpublished⟩ := hx.publishes hd
    obtain ⟨m, hm, hmi, hmn⟩ := hpublished.message (x.reachable k)
    rcases got_on_or_same hk hi with hon | hsame
    · exact ⟨k, hk, hon⟩
    · have hstart : Startable (x.state k).ledger.db i m false :=
        ⟨hmi.trans hdi, .inl (hmn.trans hdn)⟩
      exact (hx.startable_gets_on hsame hw hm hstart).of_later hk
  · exact hx.startable_gets_on hi hw hm hstart

/-- **A running invocation gets on**: its attempt ends, or a recovery pass finds it lost. -/
theorem Fair.running_gets_on (hx : Fair N S x) {n : Nat} (hi : i ∈ (x.state n).ledger.db.invocations)
    (hrun : i.status = .running) : GetsOn x n i := by
  -- as long as the record is the same, it has a running attempt
  have hattempt : ∀ k, i ∈ (x.state k).ledger.db.invocations →
      ∃ b, RunsAttempt (x.state k).ledger.db i.id i.attemptCount b := by
    intro k hk
    have hat := (inv_reachable (ledger_reachable x k)).numbered.each i hk
    obtain ⟨b, hb, hbi, hbn⟩ := (hat.numbers i.attemptCount).mpr ⟨hat.started hrun, le_rfl⟩
    exact ⟨b, hb, hbi, hbn, (hat.running b hb hbi).mpr ⟨hrun, hbn⟩⟩
  obtain ⟨b, hb, hbi, hbn, hbrun⟩ := hattempt n hi
  obtain ⟨k, hk, hend⟩ := hx.attempts n b hb hbrun
  rw [hbi, hbn] at hend
  rcases hend with hnone | ⟨last, hsilent⟩
  · rcases got_on_or_same hk hi with hon | hsame
    · exact ⟨k, hk, hon⟩
    · obtain ⟨a, ha⟩ := hattempt k hsame
      exact absurd ha (hnone a)
  · obtain ⟨k₁, hk₁, hclock⟩ := hx.clock_from (last + seconds S) k
    obtain ⟨k₂, hk₂, staleAfterSeconds, maxAttempts, now, summary, hevent, hle, hok⟩ :=
      hx.recoveries k₁
    have hs := Clocked.step_some (x.next k₂)
    rw [hevent] at hs
    have hnow : (x.state k₂).clock ≤ now := (hs.2.2 now List.mem_cons_self).1
    rcases got_on_or_same (by omega : n ≤ k₂ + 1) hi with hon | hsame
    · exact ⟨k₂ + 1, by omega, hon⟩
    · obtain ⟨a, ha⟩ := hattempt (k₂ + 1) hsame
      obtain ⟨w, hw, hworker, hstatus, hlast⟩ := hsilent (k₂ + 1) (by omega) a ha
      have hdb : (x.state (k₂ + 1)).ledger.db =
          (recoverStaleWorkers (x.state k₂).ledger.db staleAfterSeconds maxAttempts now).1 :=
        (congrArg State.db (Option.some.inj hs.1)).symm
      have hpass := ((inv_reachable (ledger_reachable x k₂)).numbered.recovers
        (recoverStaleWorkers_ok hok).1 maxAttempts).pass
      rw [← hdb] at hpass
      have hstale : w.lastHeartbeat < now - seconds staleAfterSeconds := by
        have htime := hclock k₂ hk₂
        have hseconds : seconds staleAfterSeconds ≤ seconds S := by
          unfold seconds
          gcongr
        linarith
      exact absurd ⟨ha.1, ha.2.2.2, w, ⟨hw, hstale, hstatus⟩, hworker⟩ (hpass.cleared a ha.1)

def progressAt (s : Clocked) (id : UUID) : Nat :=
  ((s.ledger.db.invocations.get id).map progress).getD 0

theorem progressAt_of_mem {s : Clocked} (hi : i ∈ s.ledger.db.invocations) :
    progressAt s i.id = progress i := by
  unfold progressAt
  rw [Table.get_of_mem hi]
  rfl

/-- **Every invocation ends.** In an infinite run that is fair to the outbox, to the consumers of the
stream and to the recovery, an accepted invocation comes to a terminal record, which it keeps. -/
theorem every_invocation_ends (hN : 1 ≤ N) (hx : Fair N S x) {n : Nat}
    (hi : i ∈ (x.state n).ledger.db.invocations) : ∃ k, n ≤ k ∧ ∃ j, Later i j ∧ j.status.isTerminal ∧
      ∀ m, k ≤ m → j ∈ (x.state m).ledger.db.invocations := by
  have hreach : ∀ k, ReachableBy step (UsesLimit N) init (x.state k).ledger := by
    intro k
    have hclocked : ReachableBy Clocked.step (fun s c => UsesLimit N s.ledger c) Clocked.init (x.state k) :=
      x.reachableBy hx.limited k
    exact ReachableBy.project (f := Clocked.ledger) (fun _ hs => hs)
      (fun {_ c _} hc hs => ⟨c, hc, (Clocked.step_some hs).1⟩) hclocked
  -- the records of the invocation from here on, and how far they are from the bound
  have hrank : ∀ k, ∃ m, k ≤ m ∧ ((∃ j ∈ (x.state (n + m)).ledger.db.invocations, Later i j ∧
      j.status.isTerminal) ∨ 2 * N + 1 - progressAt (x.state (n + m)) i.id <
        2 * N + 1 - progressAt (x.state (n + k)) i.id) := by
    intro k
    obtain ⟨j, hj, hij⟩ := exists_later (by omega : n ≤ n + k) hi
    by_cases ht : j.status.isTerminal
    · exact ⟨k, le_rfl, .inl ⟨j, hj, hij, ht⟩⟩
    have hon : GetsOn x (n + k) j := by
      rcases (InvocationStatus.not_isTerminal_iff _).mp ht with hq | hrun | hr
      · exact hx.waiting_gets_on hj (.inl hq)
      · exact hx.running_gets_on hj hrun
      · exact hx.waiting_gets_on hj (.inr hr)
    obtain ⟨m, hm, l, hl, hjl, hlt⟩ := hon
    refine ⟨m - n, by omega, .inr ?_⟩
    rw [show n + (m - n) = m by omega, ← hij.id, progressAt_of_mem hj, ← hjl.id, progressAt_of_mem hl]
    have hle := progress_le l
    have hcount := (bounded_reachable hN (hreach m)).count l hl
    omega
  obtain ⟨k, -, j, hj, hij, ht⟩ := eventually_of_rank _ hrank 0
  refine ⟨n + k, by omega, j, hij, ht, fun m hm => ?_⟩
  obtain ⟨l, hl, hjl⟩ := exists_later hm hj
  rw [← hjl.final ht]
  exact hl

end

/-! ## Runs that come to rest -/

/-- Everything is published, nothing runs, and every invocation has ended. -/
structure Settled (s : State) : Prop where
  published : ∀ d ∈ s.db.dispatches, d.publishedAt ≠ none
  attempts : ∀ a ∈ s.db.attempts, a.status ≠ .running
  invocations : ∀ i ∈ s.db.invocations, i.status.isTerminal

/-- A dispatch pass and a recovery pass in turn, a second apart. -/
def idleCall (N S : Nat) (time : Time) (n : Nat) : Call :=
  if n % 2 = 0 then .dispatchPending 1 (time + seconds (n + 1)) []
  else .recoverStaleWorkers S N (time + seconds (n + 1))

theorem seconds_succ (n : Nat) : seconds n ≤ seconds (n + 1) := by
  exact Int.mul_le_mul_of_nonneg_right (Int.le_add_one le_rfl) (by decide)

namespace Settled

theorem dueDispatches (h : Settled s) (now : Time) (limit : Nat) : s.db.dueDispatches now limit [] = [] :=
  List.eq_nil_iff_forall_not_mem.mpr fun d hd =>
    h.published d (Database.mem_dueDispatches hd).1 (Database.mem_dueDispatches hd).2.1

theorem dispatchPending (h : Settled s) (now : Time) (limit : Nat) :
    Model.dispatchPending s.db s.stream limit now [] = (s.db, s.stream, ⟨0, 0⟩) := by
  simp only [Model.dispatchPending, h.dueDispatches, publishAll, commitDispatches, Table.flush_nil,
    List.countP_nil]

theorem recoverStaleWorkers (h : Settled s) (staleAfterSeconds maxAttempts : Nat) (now : Time) :
    ∃ summary, Model.recoverStaleWorkers s.db staleAfterSeconds maxAttempts now =
      (s.db, .ok summary) :=
  ⟨_, recoverStaleWorkers_quiet fun a ha hlost => h.attempts a ha hlost.2.1⟩

/-- Nothing happens any more. -/
theorem idle (h : Settled s) (N S : Nat) (time : Time) (n : Nat) :
    Clocked.step ⟨time + seconds n, s⟩ (idleCall N S time n) = some ⟨time + seconds (n + 1), s⟩ := by
  have hclock : time + seconds n ≤ time + seconds (n + 1) := Int.add_le_add_left (seconds_succ n) time
  unfold idleCall Clocked.step
  split
  · simp [Call.readings, readClock, hclock, Ledger.step, h.dispatchPending]
  · obtain ⟨summary, hcall⟩ := h.recoverStaleWorkers S N (time + seconds (n + 1))
    simp [Call.readings, readClock, hclock, Ledger.step, hcall]

/-- **A run that comes to rest can go on as a fair one.** -/
theorem fair {N : Nat} (S : Nat) {s t : Clocked} (hs : Clocked.init s) {calls : List Call}
    (hlimit : ∀ p ∈ trace Clocked.step s calls, UsesLimit N p.1.ledger p.2.1)
    (hrun : replay Clocked.step s calls = some t) (h : Settled t.ledger) :
    ∃ x : Execution Clocked.step Clocked.init, Fair N S x ∧
      ∀ n ≤ calls.length, replay Clocked.step s (calls.take n) = some (x.state n) := by
  have hzero : t = ⟨t.clock + seconds (0 : Nat), t.ledger⟩ := by simp [seconds]
  let tail : Execution Clocked.step fun u => replay Clocked.step s calls = some u :=
    { state := fun n => ⟨t.clock + seconds n, t.ledger⟩
      event := idleCall N S t.clock
      start := hzero ▸ hrun
      next := fun n => by exact_mod_cast h.idle N S t.clock n }
  obtain ⟨x, hbefore, hafter, hok⟩ := @Execution.exists_prepend _ _ Clocked.step Clocked.init
    (fun s c => UsesLimit N s.ledger c) s hs calls hlimit tail fun n => by
    change UsesLimit N t.ledger (idleCall N S t.clock n)
    unfold idleCall
    split
    · trivial
    · rfl
  have hstate : ∀ n, x.state (calls.length + n) = ⟨t.clock + seconds n, t.ledger⟩ := fun n => (hafter n).1
  have hevent : ∀ n, x.event (calls.length + n) = idleCall N S t.clock n := fun n => (hafter n).2
  refine ⟨x, ⟨hok, ?_, ?_, ?_, ?_, ?_⟩, hbefore⟩
  · intro time
    refine ⟨calls.length + ((time - t.clock).toNat + 1), ?_⟩
    rw [hstate]
    have hle := Int.self_le_toNat (time - t.clock)
    change time < t.clock + seconds _
    unfold seconds
    push_cast
    linarith
  · intro n
    refine ⟨calls.length + 2 * n, by omega, 1, t.clock + seconds ((2 * n : Nat) + 1), [], ?_, le_rfl, ?_⟩
    · rw [hevent, idleCall, if_pos (by omega)]
    · rw [hstate, h.dispatchPending]
  · intro n i hi hw _
    refine ⟨calls.length + n, by omega, .inl fun hlast => ?_⟩
    rw [hstate] at hlast
    exact TerminalKept.waiting_not_terminal hw (h.invocations i hlast)
  · intro n b _ _
    refine ⟨calls.length + n, by omega, .inl fun a ha => ?_⟩
    rw [hstate] at ha
    exact h.attempts a ha.1 ha.2.2.2
  · intro n
    obtain ⟨summary, hcall⟩ := h.recoverStaleWorkers S N (t.clock + seconds ((2 * n + 1 : Nat) + 1))
    refine ⟨calls.length + (2 * n + 1), by omega, S, N, t.clock + seconds ((2 * n + 1 : Nat) + 1),
      summary, ?_, le_rfl, ?_⟩
    · rw [hevent, idleCall, if_neg (by omega)]
    · rw [hstate, hcall]

end Settled

/-- The second attempt of the invocation that has lost its first worker succeeds. -/
def lostWorkerEnds : List Call :=
  lostWorkerRun ++
    [.markFinished 3 8 (.succeeded .null) { maxAttempts := 3, jitter := fun _ => 0 } 9 (seconds 22)]

/-- In a fair run that goes on from there, the invocation that had been accepted has ended. -/
theorem every_invocation_ends_lostWorker : ∃ x : Execution Clocked.step Clocked.init, Fair 3 15 x ∧
    ∃ i ∈ (x.state 3).ledger.db.invocations, i.status = .queued ∧
      ∃ k, 3 ≤ k ∧ ∃ j, Later i j ∧ j.status.isTerminal ∧
        ∀ m, k ≤ m → j ∈ (x.state m).ledger.db.invocations := by
  have hends : (replay Clocked.step ⟨0, empty⟩ lostWorkerEnds).any fun t =>
      (t.ledger.db.dispatches.rows.all fun d => d.publishedAt ≠ none) &&
        (t.ledger.db.attempts.rows.all fun a => a.status ≠ .running) &&
          t.ledger.db.invocations.rows.all fun i => i.status.isTerminal := by decide +kernel
  have haccepted : (replay Clocked.step ⟨0, empty⟩ (lostWorkerEnds.take 3)).any fun t =>
      t.ledger.db.invocations.rows.any fun i => i.status = .queued := by decide +kernel
  have hlimit : ∀ p ∈ trace Clocked.step ⟨0, empty⟩ lostWorkerEnds, UsesLimit 3 p.1.ledger p.2.1 := by
    decide +kernel
  obtain ⟨t, hrun, ht⟩ := (Option.any_eq_true ..).mp hends
  simp only [Bool.and_eq_true, List.all_eq_true, decide_eq_true_eq] at ht
  obtain ⟨x, hx, hbefore⟩ := Settled.fair 15 (show Clocked.init ⟨0, empty⟩ from init_empty) hlimit hrun
    ⟨ht.1.1, ht.1.2, ht.2⟩
  rw [hbefore 3 (by decide)] at haccepted
  obtain ⟨i, hi, hqueued⟩ := List.any_eq_true.mp haccepted
  exact ⟨x, hx, i, hi, of_decide_eq_true hqueued, every_invocation_ends (by decide) hx hi⟩

end Serverless.Ledger
