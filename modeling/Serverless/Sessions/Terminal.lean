import Serverless.Model.Progress
import Serverless.Sessions.System

/-!
# Terminal invocations

`mark_running` and `mark_finished` hold the invocation row while they decide, so they
never write to a terminal one. A recovery decides on the row it read and writes to the
row it finds at its commit: it keeps terminal rows exactly as long as none of the
invocations it is about to write has ended in between.
-/
namespace Serverless.Sessions

open Serverless.Library Serverless.Model

/-- Complete calls keep terminal rows. -/
theorem terminalKept_call {s t : Ledger.State} {c : Ledger.Call} (h : Ledger.step s c = some t) :
    TerminalKept s.db t.db := by
  cases Ledger.step_effect h with
  | unrelated _ db hi => exact .of_eq hi
  | created request version invocationId dispatchId now db hc =>
    obtain ⟨_, _, hi, -, rfl⟩ := insertInvocation_ok hc
    exact fun i him _ => (Table.mem_insert hi).mpr (Or.inl him)
  | dispatched => exact .refl _
  | marked => exact .markRunning rfl
  | finished => exact .markFinished rfl
  | recovered staleAfterSeconds maxAttempts now =>
    exact .recovered (readRecovery_of _ _ _ _) _

/-- No recovery commits over an invocation that has ended since it was read. -/
def SparesTerminal (s : State) : Event → Prop
  | .commitRecovery n => ∀ r ∈ s.recoveries[n]?, ∀ p ∈ r.read.lost,
      ∀ i ∈ s.db.invocations.get p.2.id, ¬ i.status.isTerminal
  | _ => True

instance (s : State) (e : Event) : Decidable (SparesTerminal s e) :=
  match e with
  | .commitRecovery n => inferInstanceAs (Decidable (∀ r ∈ s.recoveries[n]?, ∀ p ∈ r.read.lost,
      ∀ i ∈ s.db.invocations.get p.2.id, ¬ i.status.isTerminal))
  | .call _ | .markRunning .. | .markFinished .. | .readRecovery .. | .abandonTask _
  | .abandonRecovery _ => inferInstanceAs (Decidable True)

theorem terminalKept_step {s t : State} {e : Event} (hok : SparesTerminal s e)
    (h : step s e = some t) : TerminalKept s.db t.db := by
  cases step_effect h with
  | called c l hc hl => exact terminalKept_call hl
  | started message messageId recovered workerId attemptId now db attempt hm hr =>
    exact .markRunning hr
  | notStarted message messageId recovered workerId attemptId now db error hm hr =>
    exact .markRunning hr
  | finished task a result policy dispatchId now db row ha hr hf =>
    exact .markFinished hf
  | notFinished | read | abandoned => exact TerminalKept.refl _
  | recovered n r hr => exact TerminalKept.commitRecovery r.maxAttempts (hok r hr)

/-- Every invocation that has ended in `s` is in `t` as it ended. -/
def Absorbed (s t : State) : Prop :=
  ∀ i ∈ s.db.invocations, i.status.isTerminal → ∃ j ∈ t.db.invocations, j.id = i.id ∧
    j.status = i.status ∧ j.completedAt = i.completedAt ∧ j.resultInline = i.resultInline ∧
    j.resultRef = i.resultRef ∧ j.errorType = i.errorType ∧ j.errorMessage = i.errorMessage

/-- **Terminal states are absorbing in every run whose recoveries spare ended invocations.** -/
theorem terminal_absorbing {s t : State} (h : Steps step SparesTerminal s t) : Absorbed s t := by
  have hkept : TerminalKept s.db t.db := by
    induction h with
    | refl => exact TerminalKept.refl _
    | tail _ hok hs ih => exact ih.trans (terminalKept_step hok hs)
  intro i hi ht
  exact ⟨i, hkept i hi ht, rfl, rfl, rfl, rfl, rfl, rfl, rfl⟩

/-- A recovery reads the running attempt, then the late worker reports success. -/
def finishedAfterRead : List Event :=
  lateWorker ++ [.readRecovery 15 3 (seconds 20),
    .markFinished 0 (.succeeded (.str "done")) { maxAttempts := 3, jitter := id } 8 (seconds 20)]

/-- The recovery dies, and another one finds nothing left to recover: the result stays. -/
theorem terminal_absorbing_finishedAfterRead : ∃ s t, Reachable step init s ∧
    Steps step SparesTerminal s t ∧ ∃ i ∈ s.db.invocations, i.status = .succeeded ∧
    ∃ j ∈ t.db.invocations, j.id = i.id ∧ j.status = .succeeded := by
  obtain ⟨s, hs, hp⟩ := reachable_of_replay step finishedAfterRead
    (fun s => (s.db.invocations.rows.any fun i => i.status = .succeeded) &&
      (replayWhere step (fun s e => decide (SparesTerminal s e)) s
        [.abandonRecovery 0, .readRecovery 15 3 (seconds 40), .commitRecovery 0]).isSome)
    init_start (by decide)
  simp only [Bool.and_eq_true, List.any_eq_true, decide_eq_true_eq, Option.isSome_iff_exists] at hp
  obtain ⟨⟨i, hi, hst⟩, t, ht⟩ := hp
  have hrun : Steps step SparesTerminal s t :=
    steps_of_replayWhere (fun _ _ hc => of_decide_eq_true hc) ht
  obtain ⟨j, hj, hid, hjs, -⟩ := terminal_absorbing hrun i hi (by rw [hst]; decide)
  exact ⟨s, t, hs, hrun, i, hi, hst, j, hj, hid, hjs.trans hst⟩

/-- A recovery that commits after the result turns a succeeded invocation into a retrying
one. -/
theorem not_terminal_absorbing : ¬ ∀ s t, Reachable step init s →
    Steps step (fun _ _ => True) s t → Absorbed s t := by
  intro hall
  obtain ⟨s, hs, hp⟩ := reachable_of_replay step finishedAfterRead
    (fun s => (s.db.invocations.rows.any fun i => i.status = .succeeded) &&
      (step s (.commitRecovery 0)).any fun t =>
        t.db.invocations.rows.all fun j => j.status = .retrying)
    init_start (by decide)
  simp only [Bool.and_eq_true, List.any_eq_true, decide_eq_true_eq, Option.any_eq_true,
    List.all_eq_true] at hp
  obtain ⟨⟨i, hi, hst⟩, t, ht, hall'⟩ := hp
  obtain ⟨j, hj, -, hjs, -⟩ := hall s t hs (.tail (.refl s) trivial ht) i hi (by rw [hst]; decide)
  have hretry := hall' j hj
  rw [hjs, hst] at hretry
  cases hretry

end Serverless.Sessions
