import Serverless.Ledger.Origins
import Serverless.Model.Registry

/-!
# One deadline

The deadline is fixed when an invocation is accepted, is carried unchanged by every
message of the invocation and bounds each start of an attempt and each container. Version
rows are those that the request schemas let through.
-/
namespace Serverless.Ledger

open Serverless.Library Serverless.Model

/-- Version rows are created by the two version routes only. -/
def ChecksVersions (_ : State) : Call → Prop
  | .createFunctionVersion row => row.settings.Valid
  | _ => True

instance (s : State) (c : Call) : Decidable (ChecksVersions s c) :=
  match c with
  | .createFunctionVersion row => inferInstanceAs (Decidable row.settings.Valid)
  | .createFunction _ | .createInvocation .. | .dispatchPending .. | .markRunning ..
  | .markFinished .. | .recoverStaleWorkers .. | .registerWorker .. | .recordHeartbeat ..
  | .markOffline .. | .markWorkersOffline .. => inferInstanceAs (Decidable True)

/-- Any functions and any versions that the schemas let through; nothing has been invoked. -/
def initChecked (s : State) : Prop := init s ∧ ∀ v ∈ s.db.versions, v.settings.Valid

/-- What is kept about deadlines. -/
structure Dated (s : State) : Prop where
  versions : ∀ v ∈ s.db.versions, v.settings.Valid
  pinned : ∀ i ∈ s.db.invocations, ∃ v ∈ s.db.versions, v.id = i.functionVersionId ∧
    i.deadlineAt = i.queuedAt + seconds v.timeoutSeconds
  messages : ∀ m ∈ s.stream, ∃ i ∈ s.db.invocations, i.id = m.invocationId ∧
    m.deadlineAt = i.deadlineAt
  attempts : ∀ a ∈ s.db.attempts, ∀ i ∈ s.db.invocations, a.invocationId = i.id →
    a.startedAt < i.deadlineAt

namespace Dated

theorem init {s : State} (h : initChecked s) : Dated s := by
  obtain ⟨⟨functions, versions, rfl⟩, hv⟩ := h
  refine ⟨hv, ?_, ?_, ?_⟩
  · exact fun i hi => absurd hi (Table.not_mem_empty i)
  · exact fun m hm => absurd hm List.not_mem_nil
  · exact fun a ha => absurd ha (Table.not_mem_empty a)

theorem versions_step {s t : State} {c : Call} (h : Dated s) (hc : ChecksVersions s c)
    (hs : step s c = some t) : ∀ v ∈ t.db.versions, v.settings.Valid := by
  intro v hv
  rcases registry_step hs with ⟨-, he⟩ | ⟨row, -, he⟩ | ⟨row, rfl, hi⟩
  · exact h.versions v (he ▸ hv)
  · exact h.versions v (he ▸ hv)
  · rcases (Table.mem_insert hi).mp hv with hv | rfl
    · exact h.versions v hv
    · exact hc

theorem pinned_step {s t : State} {c : Call} (h : Dated s) (hs : step s c = some t) :
    ∀ i ∈ t.db.invocations, ∃ v ∈ t.db.versions, v.id = i.functionVersionId ∧
      i.deadlineAt = i.queuedAt + seconds v.timeoutSeconds := by
  intro i' hi'
  rcases (step_effect hs).invocation_origin hi' with
    ⟨i, hi, hsame⟩ | ⟨request, version, invocationId, dispatchId, now, rfl, hnew, hnone⟩
  · obtain ⟨v, hv, hid, hdue⟩ := h.pinned i hi
    refine ⟨v, version_kept hs hv, hid.trans hsame.version.symm, ?_⟩
    rw [hsame.deadlineAt, hsame.queuedAt, hdue]
  · -- the version was resolved in this call
    obtain ⟨v, hv, he, -⟩ := createdInvocation_pinned hs hnone hi' (by rw [hnew]; rfl)
    refine ⟨v, version_kept hs hv, ?_, ?_⟩
    · rw [he]
      rfl
    · rw [he]
      rfl

theorem messages_step {s t : State} {c : Call} (h : Dated s) (hs : step s c = some t) :
    ∀ m ∈ t.stream, ∃ i ∈ t.db.invocations, i.id = m.invocationId ∧
      m.deadlineAt = i.deadlineAt := by
  have he := step_effect hs
  have hkeep : ∀ i ∈ s.db.invocations, ∀ m : StreamMessage, i.id = m.invocationId →
      m.deadlineAt = i.deadlineAt →
        ∃ i' ∈ t.db.invocations, i'.id = m.invocationId ∧ m.deadlineAt = i'.deadlineAt := by
    intro i hi m hid hm
    obtain ⟨i', hi', hsame⟩ := he.invocation_kept hi
    exact ⟨i', hi', hsame.id.trans hid, hm.trans hsame.deadlineAt.symm⟩
  have hold : ∀ m ∈ s.stream, ∃ i' ∈ t.db.invocations, i'.id = m.invocationId ∧
      m.deadlineAt = i'.deadlineAt := by
    intro m hm
    obtain ⟨i, hi, hid, hdue⟩ := h.messages m hm
    exact hkeep i hi m hid hdue
  cases he with
  | unrelated | created | marked | finished | recovered => exact hold
  | dispatched limit now outcomes =>
    intro m hm
    rcases mem_publishAll_stream hm with hm | ⟨d, -, i, hget, rfl⟩
    · exact hold m hm
    · exact hkeep i (Table.get_mem hget) _ rfl rfl

theorem attempts_step {s t : State} {c : Call} (h : Dated s) (hinv : Inv s)
    (hs : step s c = some t) : ∀ a ∈ t.db.attempts, ∀ i ∈ t.db.invocations,
      a.invocationId = i.id → a.startedAt < i.deadlineAt := by
  intro a' ha' i' hi' hid
  have he := step_effect hs
  -- the invocation that an attempt belongs to was there before the call
  have hbefore : ∀ j ∈ s.db.invocations, a'.invocationId = j.id → i'.deadlineAt = j.deadlineAt := by
    intro j hj hji
    obtain ⟨j', hj', hsame⟩ := he.invocation_kept hj
    have heq : i' = j' := Table.eq_of_key hi' hj' (hid.symm.trans (hji.trans hsame.id.symm))
    rw [heq, hsame.deadlineAt]
  rcases he.attempt_origin ha' with ⟨a, ha, hai, -, hat⟩ | ⟨message, i, hstart⟩
  · obtain ⟨j, hj, hji⟩ := hinv.numbered.attemptOwner a ha
    rw [← hat, hbefore j hj (hai.symm.trans hji.symm)]
    exact h.attempts a ha j hj hji.symm
  · rw [hbefore i (Table.get_mem hstart.found) hstart.invocationId]
    exact hstart.early

theorem step {s t : State} {c : Call} (h : Dated s) (hinv : Inv s) (hc : ChecksVersions s c)
    (hs : Ledger.step s c = some t) : Dated t :=
  ⟨h.versions_step hc hs, h.pinned_step hs, h.messages_step hs, h.attempts_step hinv hs⟩

end Dated

theorem reachable_of_checked {s : State} (h : ReachableBy step ChecksVersions initChecked s) :
    Reachable step init s :=
  ReachableBy.project (f := id) (fun _ hi => hi.1) (fun {_ c _} _ hs => ⟨c, trivial, hs⟩) h

theorem dated_reachable {s : State} (h : ReachableBy step ChecksVersions initChecked s) :
    Dated s :=
  h.invariant (fun _ hi => .init hi) fun hr hd hc hs =>
    hd.step (inv_reachable (reachable_of_checked hr)) hc hs

/-- Whatever runs, the terms of an invocation stay. -/
theorem steps_sameTerms {ok : State → Call → Prop} {s t : State} (h : Steps step ok s t)
    {i : Invocation} (hi : i ∈ s.db.invocations) : ∃ i' ∈ t.db.invocations, SameTerms i i' := by
  induction h with
  | refl => exact ⟨i, hi, .refl i⟩
  | tail _ _ hs ih =>
    obtain ⟨j, hj, hij⟩ := ih
    obtain ⟨k, hk, hjk⟩ := (step_effect hs).invocation_kept hj
    exact ⟨k, hk, hij.trans hjk⟩

/-- **One deadline bounds queueing, backoff and all attempts.** `execute` starts a container only
when it has come to `.container spec`, and `spec.timeoutSeconds` is what `container.wait` is
given. -/
theorem one_deadline {s : State} (h : ReachableBy step ChecksVersions initChecked s)
    {i : Invocation} (hi : i ∈ s.db.invocations) :
    ∃ v, s.db.versions.get i.functionVersionId = some v ∧
      i.deadlineAt = i.queuedAt + seconds v.timeoutSeconds ∧
      (∀ t, Steps step ChecksVersions s t → ∃ i' ∈ t.db.invocations, i'.id = i.id ∧
        i'.functionVersionId = i.functionVersionId ∧ i'.queuedAt = i.queuedAt ∧
        i'.deadlineAt = i.deadlineAt) ∧
      (∀ a ∈ s.db.attemptsOf i.id, a.startedAt < i.deadlineAt) ∧
      ∀ m ∈ s.stream, m.invocationId = i.id → ∀ messageId recovered now,
        (∀ spec, planExecution s.db (parseInvocationTask messageId m recovered) now =
            .container spec →
          0 < spec.timeoutSeconds ∧ spec.timeoutSeconds ≤ v.timeoutSeconds ∧
            now + 1000000 * spec.timeoutSeconds ≤ i.deadlineAt) ∧
        (i.deadlineAt ≤ now → ∀ spec,
          planExecution s.db (parseInvocationTask messageId m recovered) now ≠
            .container spec) := by
  have hd := dated_reachable h
  obtain ⟨v, hv, hid, hdue⟩ := hd.pinned i hi
  refine ⟨v, hid ▸ Table.get_of_mem hv, hdue, fun t ht => ?_, fun a ha => ?_,
    fun m hm hmi messageId recovered now => ?_⟩
  · obtain ⟨i', hi', hsame⟩ := steps_sameTerms ht hi
    exact ⟨i', hi', hsame.id, hsame.version, hsame.queuedAt, hsame.deadlineAt⟩
  · obtain ⟨ha, hai⟩ := Database.mem_attemptsOf.mp ha
    exact hd.attempts a ha i hi hai
  · -- the message carries the deadline of the row
    have hdeadline : (parseInvocationTask messageId m recovered).deadlineAt = i.deadlineAt := by
      obtain ⟨j, hj, hji, hmd⟩ := hd.messages m hm
      have hij : j = i := Table.eq_of_key hj hi (hji.trans hmi)
      rw [← hij]
      exact hmd
    constructor
    · intro spec hspec
      obtain ⟨i', v', f, hplan⟩ := planExecution_container hspec
      have hii : i' = i := Table.eq_of_key (Table.get_mem hplan.invocation) hi
        ((Table.get_key hplan.invocation).trans hmi)
      have hvv : v' = v := by
        refine Table.eq_of_key (Table.get_mem hplan.version) hv ?_
        rw [Table.get_key hplan.version, hii, hid]
      rw [← hdeadline, ← hvv]
      exact hplan.timeout_bounds (hvv ▸ (hd.versions v hv).timeout.1)
    · intro hlate spec hspec
      obtain ⟨_, _, _, hplan⟩ := planExecution_container hspec
      have hearly := hplan.early
      rw [hdeadline] at hearly
      exact absurd hlate (not_le.mpr hearly)

/-- At second 21 the second attempt of `lostWorkerRun` may run for nine more seconds. -/
theorem one_deadline_lostWorker : ∃ s, ReachableBy step ChecksVersions initChecked s ∧
    ∃ i ∈ s.db.invocations, i.deadlineAt = i.queuedAt + seconds 30 ∧
      ∃ spec, planExecution s.db
          (parseInvocationTask 1 ⟨3, 2, 7, 1, 0, seconds 30⟩ true) (seconds 21) =
            .container spec ∧
        spec.timeoutSeconds = 9 ∧ 21000000 + 1000000 * spec.timeoutSeconds ≤ i.deadlineAt := by
  have hempty : initChecked empty := ⟨init_empty, fun v hv => absurd hv (Table.not_mem_empty v)⟩
  obtain ⟨s, hs, hp⟩ := reachableBy_of_replayWhere step lostWorkerRun
    (fun s => decide ((⟨3, 2, 7, 1, 0, seconds 30⟩ : StreamMessage) ∈ s.stream) &&
      ((planExecution s.db (parseInvocationTask 1 ⟨3, 2, 7, 1, 0, seconds 30⟩ true)
        (seconds 21)).spec.any fun spec => spec.timeoutSeconds = 9) &&
      (s.db.invocations.rows.any fun i => i.id = 3 ∧ i.functionVersionId = 2) &&
      (s.db.versions.get 2).any fun v => v.timeoutSeconds = 30)
    (fun s c (hc : decide (ChecksVersions s c) = true) => of_decide_eq_true hc) hempty
    (by decide +kernel)
  simp only [Bool.and_eq_true, List.any_eq_true, decide_eq_true_eq, Option.any_eq_true] at hp
  obtain ⟨⟨⟨hm, spec, hspec, htime⟩, i, hi, hid, hpin⟩, v₀, hv₀, htimeout⟩ := hp
  obtain ⟨v, hv, hdue, -, -, hrun⟩ := one_deadline hs (i := i) hi
  rw [hpin, hv₀] at hv
  cases hv
  have hplan := Plan.spec_some hspec
  refine ⟨s, hs, i, hi, by rw [hdue, htimeout]; rfl, spec, hplan, htime, ?_⟩
  have hbound := ((hrun _ hm hid.symm 1 true (seconds 21)).1 spec hplan).2.2
  rw [show ((seconds 21 : Time) : ℚ) = 21000000 by norm_num [seconds]] at hbound
  exact hbound

end Serverless.Ledger
