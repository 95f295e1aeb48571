import Serverless.Ledger.System

/-!
# Attempt numbers and outbox numbers

Attempt rows of an invocation are numbered without gaps, the running one is the last,
and the outbox never runs ahead of the count by more than one, nor at all while the
invocation runs. The two numberings are kept by one joint invariant: a message from
the future would let `mark_running` time a running invocation out, and a dispatch
number that exists already would make the retry insert fail.
-/
namespace Serverless.Ledger

open Serverless.Library Serverless.Model

/-- The numbering of the attempts and dispatches of one invocation. -/
structure NumberedAt (db : Database) (i : Invocation) : Prop where
  numbers : ∀ n, (∃ a ∈ db.attempts, a.invocationId = i.id ∧ a.attemptNumber = n) ↔
    1 ≤ n ∧ n ≤ i.attemptCount
  running : ∀ a ∈ db.attempts, a.invocationId = i.id →
    (a.status = .running ↔ i.status = .running ∧ a.attemptNumber = i.attemptCount)
  started : i.status = .running → 1 ≤ i.attemptCount
  bound : ∀ d ∈ db.dispatches, d.invocationId = i.id → d.attemptNumber ≤ i.attemptCount + 1
  boundRunning : ∀ d ∈ db.dispatches, d.invocationId = i.id → i.status = .running →
    d.attemptNumber ≤ i.attemptCount

/-- The joint numbering invariant of the three tables. -/
structure Numbered (db : Database) : Prop where
  attemptOwner : ∀ a ∈ db.attempts, ∃ i ∈ db.invocations, i.id = a.invocationId
  dispatchOwner : ∀ d ∈ db.dispatches, ∃ i ∈ db.invocations, i.id = d.invocationId
  each : ∀ i ∈ db.invocations, NumberedAt db i

/-- Only the rows of the invocation itself matter to its numbering. -/
theorem NumberedAt.frame {db db' : Database} {i : Invocation} (h : NumberedAt db i)
    (ha : ∀ a, a.invocationId = i.id → (a ∈ db'.attempts ↔ a ∈ db.attempts))
    (hd : ∀ d, d.invocationId = i.id → (d ∈ db'.dispatches ↔ d ∈ db.dispatches)) :
    NumberedAt db' i := by
  refine ⟨fun n => ?_, ?_, h.started, ?_, ?_⟩
  · rw [← h.numbers n]
    constructor
    · rintro ⟨a, ham, hid, hn⟩
      exact ⟨a, (ha a hid).mp ham, hid, hn⟩
    · rintro ⟨a, ham, hid, hn⟩
      exact ⟨a, (ha a hid).mpr ham, hid, hn⟩
  · intro a ham hid
    exact h.running a ((ha a hid).mp ham) hid
  · intro d hdm hid
    exact h.bound d ((hd d hid).mp hdm) hid
  · intro d hdm hid
    exact h.boundRunning d ((hd d hid).mp hdm) hid

namespace Numbered

variable {db db' : Database}

theorem fresh (functions : Table Function.id Function.ownerName)
    (versions : Table FunctionVersion.id FunctionVersion.functionNumber) :
    Numbered (.fresh functions versions) := by
  constructor <;> intro x hx <;> exact absurd hx (Table.not_mem_empty x)

theorem congr (h : Numbered db) (hi : db'.invocations = db.invocations)
    (ha : db'.attempts = db.attempts) (hd : db'.dispatches = db.dispatches) : Numbered db' := by
  refine ⟨?_, ?_, fun i him => ?_⟩
  · rw [ha, hi]; exact h.attemptOwner
  · rw [hd, hi]; exact h.dispatchOwner
  · rw [hi] at him
    exact (h.each i him).frame (fun a _ => by rw [ha]) fun d _ => by rw [hd]

/-- The update rule: one invocation row changes, together with attempt and dispatch rows of
that invocation only, and its own numbering is established afresh. -/
theorem update {i i' : Invocation} (h : Numbered db)
    (hid : i'.id = i.id) (hself : i' ∈ db'.invocations)
    (hinv : ∀ j ∈ db'.invocations, j = i' ∨ j ∈ db.invocations ∧ j.id ≠ i.id)
    (hkeep : ∀ j ∈ db.invocations, j.id ≠ i.id → j ∈ db'.invocations)
    (ha : ∀ a, a.invocationId ≠ i.id → (a ∈ db'.attempts ↔ a ∈ db.attempts))
    (hd : ∀ d, d.invocationId ≠ i.id → (d ∈ db'.dispatches ↔ d ∈ db.dispatches))
    (hat : NumberedAt db' i') : Numbered db' := by
  have howner : ∀ k, (∃ j ∈ db.invocations, j.id = k) → ∃ j ∈ db'.invocations, j.id = k := by
    rintro k ⟨j, hj, rfl⟩
    by_cases hji : j.id = i.id
    · exact ⟨i', hself, hid.trans hji.symm⟩
    · exact ⟨j, hkeep j hj hji, rfl⟩
  refine ⟨?_, ?_, fun j hj => ?_⟩
  · intro a ham
    by_cases hai : a.invocationId = i.id
    · exact ⟨i', hself, hid.trans hai.symm⟩
    · exact howner _ (h.attemptOwner a ((ha a hai).mp ham))
  · intro d hdm
    by_cases hdi : d.invocationId = i.id
    · exact ⟨i', hself, hid.trans hdi.symm⟩
    · exact howner _ (h.dispatchOwner d ((hd d hdi).mp hdm))
  · rcases hinv j hj with rfl | ⟨hj, hne⟩
    · exact hat
    · exact (h.each j hj).frame (fun a hja => ha a (hja.trans_ne hne))
        fun d hjd => hd d (hjd.trans_ne hne)

/-- No attempt exists for an id that no invocation has. -/
theorem no_attempt {id : UUID} (h : Numbered db) (hn : db.invocations.get id = none) :
    ∀ a ∈ db.attempts, a.invocationId ≠ id := by
  intro a ha he
  obtain ⟨i, hi, hid⟩ := h.attemptOwner a ha
  exact Table.get_eq_none.mp hn i hi (hid.trans he)

theorem no_dispatch {id : UUID} (h : Numbered db) (hn : db.invocations.get id = none) :
    ∀ d ∈ db.dispatches, d.invocationId ≠ id := by
  intro d hd he
  obtain ⟨i, hi, hid⟩ := h.dispatchOwner d hd
  exact Table.get_eq_none.mp hn i hi (hid.trans he)

theorem created {request : CreateRequest} {version : FunctionVersion}
    {invocationId dispatchId : UUID} {now : Time} (h : Numbered db)
    (hc : insertInvocation db request version invocationId dispatchId now = .ok db') :
    Numbered db' := by
  obtain ⟨invocations, dispatches, hi, hd, rfl⟩ := insertInvocation_ok hc
  have hnew : db.invocations.get invocationId = none := Table.insert_fresh hi
  have howner : ∀ k, (∃ j ∈ db.invocations, j.id = k) → ∃ j ∈ invocations, j.id = k := by
    rintro k ⟨j, hj, rfl⟩
    exact ⟨j, (Table.mem_insert hi).mpr (Or.inl hj), rfl⟩
  refine ⟨fun a ha => howner _ (h.attemptOwner a ha), fun d hdm => ?_, fun i him => ?_⟩
  · rcases (Table.mem_insert hd).mp hdm with hdm | rfl
    · exact howner _ (h.dispatchOwner d hdm)
    · exact ⟨_, (Table.mem_insert hi).mpr (Or.inr rfl), rfl⟩
  · rcases (Table.mem_insert hi).mp him with him | rfl
    · refine (h.each i him).frame (fun _ _ => Iff.rfl) fun d hid => ?_
      refine (Table.mem_insert hd).trans (or_iff_left ?_)
      rintro rfl
      exact Table.get_eq_none.mp hnew i him hid.symm
    · refine ⟨fun n => ?_, fun a ha hid => absurd hid (h.no_attempt hnew a ha),
        by simp [newInvocation], fun d hdm hid => ?_, by simp [newInvocation]⟩
      · constructor
        · rintro ⟨a, ha, hid, -⟩
          exact absurd hid (h.no_attempt hnew a ha)
        · rintro ⟨h1, h0⟩
          change n ≤ 0 at h0
          omega
      · rcases (Table.mem_insert hd).mp hdm with hdm | rfl
        · exact absurd hid (h.no_dispatch hnew d hdm)
        · exact le_rfl

/-- Rewriting dispatch rows without touching their pairs keeps the numbering. -/
theorem dispatched (h : Numbered db) (done : List InvocationDispatch) :
    Numbered (commitDispatches db done) := by
  refine ⟨h.attemptOwner, fun d hd => ?_, fun i hi => ?_⟩
  · obtain ⟨row, hrow, -, hinv, -, -⟩ := commitDispatches_origin hd
    rw [← hinv]
    exact h.dispatchOwner row hrow
  · have hat := h.each i hi
    refine ⟨hat.numbers, hat.running, hat.started, fun d hd hid => ?_, fun d hd hid hr => ?_⟩
    · obtain ⟨row, hrow, -, hinv, hnum, -⟩ := commitDispatches_origin hd
      rw [← hnum]
      exact hat.bound row hrow (hinv.trans hid)
    · obtain ⟨row, hrow, -, hinv, hnum, -⟩ := commitDispatches_origin hd
      rw [← hnum]
      exact hat.boundRunning row hrow (hinv.trans hid) hr

/-- While an invocation waits, none of its attempts runs. -/
theorem not_running {i : Invocation} (h : Numbered db) (him : i ∈ db.invocations)
    (hs : i.status ≠ .running) {a : InvocationAttempt} (ha : a ∈ db.attempts)
    (hid : a.invocationId = i.id) : a.status ≠ .running :=
  fun hr => hs (((h.each i him).running a ha hid).mp hr).1

/-- Moving an invocation that is not running to another status in which it does not run. -/
theorem rest {i : Invocation} {f : Invocation → Invocation}
    (hf : ∀ j, (f j).id = j.id ∧ (f j).ownerKey = j.ownerKey) (h : Numbered db)
    (hget : db.invocations.get i.id = some i) (hs : i.status ≠ .running)
    (hs' : (f i).status ≠ .running) (hc : (f i).attemptCount = i.attemptCount) :
    Numbered { db with invocations := db.invocations.modify i.id f hf } := by
  have him := Table.get_mem hget
  have hat := h.each i him
  have hid : (f i).id = i.id := (hf i).1
  refine h.update hid (Table.mem_modify_self hf hget)
    (fun j hj => Table.mem_modify_cases hf hget hj)
    (fun j hj hne => Table.mem_modify_of_ne hf hj hne)
    (fun _ _ => Iff.rfl) (fun _ _ => Iff.rfl) ⟨?_, ?_, fun hr => absurd hr hs', ?_, ?_⟩
  · rw [hid, hc]
    exact hat.numbers
  · intro a ha hai
    have hno := h.not_running him hs ha (hai.trans hid)
    exact ⟨fun hr => absurd hr hno, fun hr => absurd hr.1 hs'⟩
  · rw [hid, hc]
    exact hat.bound
  · exact fun _ _ _ hr => absurd hr hs'

/-- Starting the next attempt. -/
theorem start {i : Invocation} {task : InvocationTask} {workerId : Option UUID}
    {attemptId : UUID} {now : Time}
    {attempts : Table InvocationAttempt.id InvocationAttempt.invocationNumber}
    (h : Numbered db) (hget : db.invocations.get task.invocationId = some i)
    (hs : i.status ≠ .running)
    (hv : db.attempts.insert (newAttempt task workerId attemptId (i.attemptCount + 1) now) =
      .ok attempts) :
    Numbered { db with
      attempts := attempts
      invocations := db.invocations.modify task.invocationId
        (·.start (i.attemptCount + 1) now) fun _ => ⟨rfl, rfl⟩ } := by
  have him := Table.get_mem hget
  have hid : i.id = task.invocationId := Table.get_key hget
  have hat := h.each i him
  have hcount : (i.start (i.attemptCount + 1) now).attemptCount = i.attemptCount + 1 :=
    Nat.max_eq_right (Nat.le_succ _)
  refine update (i := i) h (show (i.start (i.attemptCount + 1) now).id = i.id from rfl)
    (Table.mem_modify_self (by exact fun _ => ⟨rfl, rfl⟩) hget)
    (fun j hj => hid ▸ Table.mem_modify_cases (by exact fun _ => ⟨rfl, rfl⟩) hget hj)
    (fun j hj hne => Table.mem_modify_of_ne (by exact fun _ => ⟨rfl, rfl⟩) hj (hid ▸ hne))
    (fun a hne => ?_) (fun _ _ => Iff.rfl) ⟨fun n => ?_, fun a ha hai => ?_, ?_, ?_, ?_⟩
  · refine (Table.mem_insert hv).trans (or_iff_left ?_)
    rintro rfl
    exact hne hid.symm
  · rw [hcount]
    constructor
    · rintro ⟨a, ha, hai, rfl⟩
      rcases (Table.mem_insert hv).mp ha with ha | rfl
      · have hb := (hat.numbers a.attemptNumber).mp ⟨a, ha, hai, rfl⟩
        omega
      · exact ⟨Nat.le_add_left 1 _, le_rfl⟩
    · rintro ⟨h1, hn⟩
      rcases Nat.lt_or_ge n (i.attemptCount + 1) with hlt | hge
      · obtain ⟨a, ha, hai, han⟩ := (hat.numbers n).mpr ⟨h1, by omega⟩
        exact ⟨a, (Table.mem_insert hv).mpr (Or.inl ha), hai, han⟩
      · exact ⟨_, (Table.mem_insert hv).mpr (Or.inr rfl), hid.symm, by
          show i.attemptCount + 1 = n; omega⟩
  · rw [hcount]
    rcases (Table.mem_insert hv).mp ha with ha | rfl
    · have hno := h.not_running him hs ha hai
      have hb := (hat.numbers a.attemptNumber).mp ⟨a, ha, hai, rfl⟩
      exact ⟨fun hr => absurd hr hno, fun hr => by omega⟩
    · exact ⟨fun _ => ⟨rfl, rfl⟩, fun _ => rfl⟩
  · intro _
    rw [hcount]
    exact Nat.le_add_left 1 _
  · intro d hd hdi
    rw [hcount]
    exact (hat.bound d hd hdi).trans (Nat.le_succ _)
  · intro d hd hdi _
    rw [hcount]
    exact hat.bound d hd hdi

/-- Closing the running attempt: the invocation leaves `RUNNING`, the attempt row gets a final
status, and the outbox may gain the next number. -/
theorem close {i : Invocation} {a : InvocationAttempt} {f : Invocation → Invocation}
    {g : InvocationAttempt → InvocationAttempt}
    {dispatches : Table InvocationDispatch.id InvocationDispatch.invocationNumber}
    (hf : ∀ j, (f j).id = j.id ∧ (f j).ownerKey = j.ownerKey)
    (hg : ∀ b, (g b).id = b.id ∧ (g b).invocationNumber = b.invocationNumber)
    (h : Numbered db) (hget : db.invocations.get i.id = some i) (ha : a ∈ db.attempts)
    (hai : a.invocationId = i.id) (hrun : a.status = .running)
    (hs : (f i).status ≠ .running) (hc : (f i).attemptCount = i.attemptCount)
    (hga : (g a).status ≠ .running)
    (hd : ∀ d ∈ dispatches, d ∈ db.dispatches ∨
      d.invocationId = i.id ∧ d.attemptNumber = a.attemptNumber + 1)
    (hd' : ∀ d ∈ db.dispatches, d ∈ dispatches) :
    Numbered { db with
      invocations := db.invocations.modify i.id f hf
      attempts := db.attempts.modify a.id g hg
      dispatches := dispatches } := by
  have him := Table.get_mem hget
  have hat := h.each i him
  have hid : (f i).id = i.id := (hf i).1
  have hgeta : db.attempts.get a.id = some a := Table.get_of_mem ha
  have hnum := ((hat.running a ha hai).mp hrun).2
  -- the update keeps the pair of the attempt
  have hpair : (g a).invocationId = a.invocationId ∧ (g a).attemptNumber = a.attemptNumber := by
    simpa [InvocationAttempt.invocationNumber] using (hg a).2
  refine h.update hid (Table.mem_modify_self hf hget)
    (fun j hj => Table.mem_modify_cases hf hget hj)
    (fun j hj hne => Table.mem_modify_of_ne hf hj hne) (fun b hne => ⟨fun hb => ?_, fun hb => ?_⟩)
    (fun d hne => ⟨fun hdm => ?_, hd' d⟩) ⟨fun n => ?_, fun b hb hbi => ?_,
      fun hr => absurd hr hs, fun d hdm hdi => ?_, fun _ _ _ hr => absurd hr hs⟩
  · rcases Table.mem_modify_cases hg hgeta hb with rfl | ⟨hb, -⟩
    · exact absurd (hpair.1.trans hai) hne
    · exact hb
  · refine Table.mem_modify_of_ne hg hb fun hk => hne ?_
    rw [Table.eq_of_key hb ha hk, hai]
  · exact (hd d hdm).resolve_right fun hx => hne hx.1
  · rw [hid, hc, ← hat.numbers n]
    constructor
    · rintro ⟨b, hb, hbi, hbn⟩
      rcases Table.mem_modify_cases hg hgeta hb with rfl | ⟨hb, -⟩
      · exact ⟨a, ha, hai, hpair.2.symm.trans hbn⟩
      · exact ⟨b, hb, hbi, hbn⟩
    · rintro ⟨b, hb, hbi, hbn⟩
      by_cases hk : b.id = a.id
      · rw [Table.eq_of_key hb ha hk] at hbn
        exact ⟨g a, Table.mem_modify_self hg hgeta, hpair.1.trans hai, hpair.2.trans hbn⟩
      · exact ⟨b, Table.mem_modify_of_ne hg hb hk, hbi, hbn⟩
  · refine ⟨fun hr => ?_, fun hr => absurd hr.1 hs⟩
    rcases Table.mem_modify_cases hg hgeta hb with rfl | ⟨hb, hk⟩
    · exact absurd hr hga
    · have hbn := ((hat.running b hb (hbi.trans hid)).mp hr).2
      refine absurd ?_ hk
      rw [Database.attempt_eq_of_number hb ha ((hbi.trans hid).trans hai.symm)
        (hbn.trans hnum.symm)]
  · rw [hc]
    rcases hd d hdm with hdm | ⟨-, hn⟩
    · exact hat.bound d hdm (hdi.trans hid)
    · rw [hn, hnum]

/-- Failing the lost attempts. -/
theorem recovered {staleAfterSeconds maxAttempts : Nat} {locked : List UUID} {r : RecoveryRead}
    (h : Numbered db) (hr : ReadOf db staleAfterSeconds locked r) :
    Numbered (commitRecovery db r maxAttempts) := by
  refine commitRecovery_rec (P := Numbered) (fun _ => ?_) h
  have hpair : ∀ a ∈ (flushRecovery db r maxAttempts).attempts, ∃ a₀ ∈ db.attempts,
      a₀.invocationId = a.invocationId ∧ a₀.attemptNumber = a.attemptNumber := by
    intro a ha
    obtain ⟨a₀, ha₀, ⟨rfl, -⟩ | ⟨p, -, -, rfl⟩⟩ := hr.flushed_attempts ha
    · exact ⟨a, ha₀, rfl, rfl⟩
    · exact ⟨a₀, ha₀, rfl, rfl⟩
  have howner : ∀ k, (∃ j ∈ db.invocations, j.id = k) →
      ∃ j ∈ (flushRecovery db r maxAttempts).invocations, j.id = k := by
    rintro k ⟨j, hj, rfl⟩
    exact flushRecovery_invocation_mem r maxAttempts hj
  have hnumbers : ∀ i ∈ db.invocations, ∀ n,
      (∃ a ∈ (flushRecovery db r maxAttempts).attempts,
        a.invocationId = i.id ∧ a.attemptNumber = n) ↔ 1 ≤ n ∧ n ≤ i.attemptCount := by
    intro i hi n
    rw [← (h.each i hi).numbers n]
    constructor
    · rintro ⟨a, ha, hai, han⟩
      obtain ⟨a₀, ha₀, hinv, hnum⟩ := hpair a ha
      exact ⟨a₀, ha₀, hinv.trans hai, hnum.trans han⟩
    · rintro ⟨a, ha, hai, han⟩
      obtain ⟨a', ha', -, hinv, hnum⟩ := flushRecovery_attempt_mem r maxAttempts ha
      exact ⟨a', ha', hinv.trans hai, hnum.trans han⟩
  refine ⟨fun a ha => ?_, fun d hd => howner _ (h.dispatchOwner d hd), fun i' hi' => ?_⟩
  · obtain ⟨a₀, ha₀, hinv, -⟩ := hpair a ha
    exact howner _ (hinv ▸ h.attemptOwner a₀ ha₀)
  obtain ⟨i, hi, ⟨rfl, hnot⟩ | ⟨p, hp, hpi, rfl⟩⟩ := hr.flushed_invocations hi'
  · have hat := h.each i' hi
    refine ⟨hnumbers i' hi, fun a ha hai => ?_, hat.started, hat.bound, hat.boundRunning⟩
    obtain ⟨a₀, ha₀, ⟨rfl, -⟩ | ⟨p, hp, rfl, rfl⟩⟩ := hr.flushed_attempts ha
    · exact hat.running a ha₀ hai
    · exact absurd ((hr.invocation p hp).2.1.trans hai) (hnot p hp)
  · subst hpi
    have hat := h.each p.2 hi
    have hrun := (hr.invocation p hp).2.2
    have hs : (p.2.lose maxAttempts r.now p.2).status ≠ .running := by
      rw [Invocation.lose_status hrun]
      split <;> decide
    have hc : (p.2.lose maxAttempts r.now p.2).attemptCount = p.2.attemptCount :=
      Invocation.lose_attemptCount _ _ _ _
    have hid : (p.2.lose maxAttempts r.now p.2).id = p.2.id := Invocation.lose_id _ _ _ _
    refine ⟨?_, fun a ha hai => ?_, fun hx => absurd hx hs, ?_, fun _ _ _ hx => absurd hx hs⟩
    · rw [hid, hc]
      exact hnumbers p.2 hi
    · refine ⟨fun hx => ?_, fun hx => absurd hx.1 hs⟩
      obtain ⟨hp1, hp1run, -⟩ := hr.attempt p hp
      have hp1n := ((hat.running p.1 hp1 (hr.invocation p hp).2.1.symm).mp hp1run).2
      obtain ⟨a₀, ha₀, ⟨rfl, hnot⟩ | ⟨q, hq, rfl, rfl⟩⟩ := hr.flushed_attempts ha
      · -- the one running attempt of the invocation is the lost one
        have han := ((hat.running a ha₀ (hai.trans hid)).mp hx).2
        have he := Database.attempt_eq_of_number ha₀ hp1
          ((hai.trans hid).trans (hr.invocation p hp).2.1) (han.trans hp1n.symm)
        exact absurd (congrArg InvocationAttempt.id he).symm (hnot p hp)
      · rw [InvocationAttempt.lose_status (hr.attempt q hq).2.1] at hx
        cases hx
    · rw [hid, hc]
      exact hat.bound

theorem marked {task : InvocationTask} {workerId : Option UUID} {attemptId : UUID} {now : Time}
    (h : Numbered db) (hd : ∃ d ∈ db.dispatches, d.invocationId = task.invocationId ∧
      d.attemptNumber = task.attemptNumber) :
    Numbered (markRunning db task workerId attemptId now).1 := by
  obtain ⟨d, hdm, hdi, hdn⟩ := hd
  rcases hm : markRunning db task workerId attemptId now with ⟨db', r⟩
  cases markRunning_cases hm with
  | missing | terminal | superseded | future | late | rejected => exact h
  | expired i hget ht hs _ =>
    have hid : i.id = task.invocationId := Table.get_key hget
    have hnot : i.status ≠ .running := by
      intro hr
      have hb := (h.each i (Table.get_mem hget)).boundRunning d hdm (hdi.trans hid.symm) hr
      have hlt := hs hr
      omega
    have hr := h.rest (f := (·.expire now)) (fun _ => ⟨rfl, rfl⟩) (hid ▸ hget) hnot
      (by simp [Invocation.expire]) rfl
    rwa [hid] at hr
  | started i attempts hget hs _ _ hv =>
    refine h.start hget ?_ hv
    rcases hs with hs | hs <;> rw [hs] <;> decide

/-- A `mark_finished` that commits acts on the running attempt of a running invocation. -/
theorem finished {invocationId attemptId : UUID} {result : RuntimeExecutionResult}
    {decision : RetryDecision} {dispatchId : UUID} {now : Time} (h : Numbered db)
    (hr : result.status ≠ .running) :
    Numbered (markFinished db invocationId attemptId none result decision dispatchId now).1 := by
  have hstatus : ∀ a : InvocationAttempt, (a.finish result now a).status ≠ .running := by
    intro a
    simpa [InvocationAttempt.finish] using hr
  rcases hm : markFinished db invocationId attemptId none result decision dispatchId now
    with ⟨db', r⟩
  cases markFinished_cases hm with
  | raised | rejected => exact h
  | retried i a dispatches hget ha hinv hi hrun _ hv =>
    have hid : i.id = invocationId := Table.get_key hget
    subst hid
    exact h.close (f := (·.retry result)) (g := a.finish result now) (fun _ => ⟨rfl, rfl⟩)
      (fun _ => ⟨rfl, rfl⟩) hget (mem_of_loadAttempt ha) hinv hrun (by simp [Invocation.retry]) rfl (hstatus a)
      (fun d hd => ((Table.mem_insert hv).mp hd).imp_right fun he => by
        subst he; exact ⟨rfl, rfl⟩)
      (fun d hd => (Table.mem_insert hv).mpr (Or.inl hd))
  | completed i a status hget ha hinv hi hrun _ hs =>
    have hid : i.id = invocationId := Table.get_key hget
    subst hid
    have hne : status ≠ .running := by
      rintro rfl
      exact absurd (attemptToInvocationStatus_isTerminal hs) (by decide)
    exact h.close (f := (·.complete status result now)) (g := a.finish result now)
      (fun _ => ⟨rfl, rfl⟩) (fun _ => ⟨rfl, rfl⟩) hget (mem_of_loadAttempt ha) hinv hrun hne rfl (hstatus a)
      (fun d hd => Or.inl hd) fun d hd => hd

end Numbered

/-- The stream carries pairs of dispatch rows only. -/
def Published (s : State) : Prop :=
  ∀ m ∈ s.stream, ∃ d ∈ s.db.dispatches, d.invocationId = m.invocationId ∧
    d.attemptNumber = m.attemptNumber

/-- A pair that is in the outbox stays in the outbox. -/
theorem Effect.dispatch_mem {s t : State} {c : Call} (h : Effect s c t) {d : InvocationDispatch}
    (hd : d ∈ s.db.dispatches) :
    ∃ d' ∈ t.db.dispatches, d'.invocationId = d.invocationId ∧
      d'.attemptNumber = d.attemptNumber := by
  have hkeep : ∀ {db' : Database}, (∀ e ∈ s.db.dispatches, e ∈ db'.dispatches) →
      ∃ d' ∈ db'.dispatches, d'.invocationId = d.invocationId ∧
        d'.attemptNumber = d.attemptNumber := fun hsub => ⟨d, hsub d hd, rfl, rfl⟩
  cases h with
  | unrelated c db hi ha hdd => exact hkeep fun e he => hdd ▸ he
  | created request version invocationId dispatchId now db hc =>
    obtain ⟨_, _, -, hi, rfl⟩ := insertInvocation_ok hc
    exact hkeep fun e he => (Table.mem_insert hi).mpr (Or.inl he)
  | dispatched limit now outcomes =>
    obtain ⟨d', hd', -, hu, -⟩ := Table.flush_mem (t := s.db.dispatches)
      (l := (publishAll s.db (s.db.dueDispatches now limit []) outcomes s.stream).1)
      (k := (·.id)) (f := InvocationDispatch.flushTo) (by exact fun _ _ => ⟨rfl, rfl⟩) hd
    simp only [InvocationDispatch.invocationNumber, Option.some.injEq, Prod.mk.injEq] at hu
    exact ⟨d', hd', hu⟩
  | marked message messageId recovered workerId attemptId now hm =>
    rcases hr : markRunning s.db (parseInvocationTask messageId message recovered) workerId
      attemptId now with ⟨db', r⟩
    cases markRunning_cases hr <;> exact ⟨d, hd, rfl, rfl⟩
  | finished invocationId attemptId attempt result policy dispatchId now ha hr =>
    rcases hm : markFinished s.db invocationId attemptId none result
      (policy.decide result attempt.attemptNumber) dispatchId now with ⟨db', r⟩
    cases markFinished_cases hm with
    | retried i a dispatches _ _ _ _ _ _ hv =>
      exact ⟨d, (Table.mem_insert hv).mpr (Or.inl hd), rfl, rfl⟩
    | raised | rejected | completed => exact ⟨d, hd, rfl, rfl⟩
  | recovered => exact ⟨d, (commitRecovery_dispatches _ _ _).symm ▸ hd, rfl, rfl⟩

/-- The invariant of the complete-call system. -/
structure Inv (s : State) : Prop where
  numbered : Numbered s.db
  published : Published s

theorem inv_init (s : State) (h : init s) : Inv s := by
  obtain ⟨functions, versions, rfl⟩ := h
  exact ⟨.fresh functions versions, fun m hm => absurd hm List.not_mem_nil⟩

theorem published_step {s t : State} {c : Call} (h : Inv s) (he : Effect s c t) : Published t := by
  have hold : ∀ m ∈ s.stream, ∃ d ∈ t.db.dispatches, d.invocationId = m.invocationId ∧
      d.attemptNumber = m.attemptNumber := by
    intro m hm
    obtain ⟨d, hd, hdi, hdn⟩ := h.published m hm
    obtain ⟨d', hd', hi, hn⟩ := he.dispatch_mem hd
    exact ⟨d', hd', hi.trans hdi, hn.trans hdn⟩
  cases he with
  | unrelated | created | marked | finished | recovered => exact hold
  | dispatched limit now outcomes =>
    intro m hm
    rcases mem_publishAll_stream hm with hm | ⟨d, hd, i, hget, rfl⟩
    · exact hold m hm
    · obtain ⟨d', hd', hi, hn⟩ := Effect.dispatch_mem (.dispatched limit now outcomes)
        (Database.mem_dueDispatches hd).1
      exact ⟨d', hd', hi.trans (Table.get_key hget).symm, hn⟩

theorem inv_step {s t : State} {c : Call} (h : Inv s) (he : Effect s c t) : Inv t := by
  refine ⟨?_, published_step h he⟩
  cases he with
  | unrelated c db hi ha hd => exact h.numbered.congr hi ha hd
  | created request version invocationId dispatchId now db hc => exact h.numbered.created hc
  | dispatched limit now outcomes => exact h.numbered.dispatched _
  | marked message messageId recovered workerId attemptId now hm =>
    exact h.numbered.marked (h.published message hm)
  | finished invocationId attemptId attempt result policy dispatchId now ha hr =>
    exact h.numbered.finished hr
  | recovered staleAfterSeconds maxAttempts now =>
    exact h.numbered.recovered (readRecovery_of s.db staleAfterSeconds [] now)

theorem inv_reachable {s : State} (h : Reachable step init s) : Inv s :=
  h.invariant inv_init fun _ hi hs => inv_step hi (step_effect hs)

theorem nodup_attemptsOf (db : Database) (id : UUID) : (db.attemptsOf id).Nodup :=
  (List.Nodup.of_map _ db.attempts.primary).filter _

/-- The attempt numbers of an invocation, as a list. -/
theorem attemptNumbers_perm {db : Database} (h : Numbered db) {i : Invocation}
    (hi : i ∈ db.invocations) :
    ((db.attemptsOf i.id).map (·.attemptNumber)).Perm (List.range' 1 i.attemptCount) := by
  have hnodup : ((db.attemptsOf i.id).map (·.attemptNumber)).Nodup := by
    refine (nodup_attemptsOf db i.id).map_on fun a ha b hb hn => ?_
    obtain ⟨ha, hai⟩ := Database.mem_attemptsOf.mp ha
    obtain ⟨hb, hbi⟩ := Database.mem_attemptsOf.mp hb
    exact Database.attempt_eq_of_number ha hb (hai.trans hbi.symm) hn
  refine (List.perm_ext_iff_of_nodup hnodup List.nodup_range').mpr fun n => ?_
  have hn := (h.each i hi).numbers n
  simp only [List.mem_map, Database.mem_attemptsOf, List.mem_range'_1, and_assoc]
  constructor
  · intro hx
    have hb := hn.mp hx
    omega
  · intro hx
    exact hn.mpr (by omega)

/-- **Attempt ledger.** Attempt rows carry exactly the numbers `1..attempt_count`, a running
invocation has exactly one running attempt and it is the last, and an invocation that is not
running has none. -/
theorem attempt_ledger {s : State} (h : Reachable step init s) {i : Invocation}
    (hi : i ∈ s.db.invocations) :
    ((s.db.attemptsOf i.id).map (·.attemptNumber)).Perm (List.range' 1 i.attemptCount) ∧
    (i.status = .running → ∃ a, a.attemptNumber = i.attemptCount ∧
      (s.db.attemptsOf i.id).filter (fun b => b.status = .running) = [a]) ∧
    (i.status ≠ .running → ∀ a ∈ s.db.attemptsOf i.id, a.status ≠ .running) := by
  have hn := (inv_reachable h).numbered
  have hat := hn.each i hi
  refine ⟨attemptNumbers_perm hn hi, fun hrun => ?_, fun hrest a ha => ?_⟩
  · obtain ⟨a, ha, hai, han⟩ := (hat.numbers i.attemptCount).mpr ⟨hat.started hrun, le_rfl⟩
    refine ⟨a, han, List.perm_singleton.mp ?_⟩
    refine (List.perm_ext_iff_of_nodup ((nodup_attemptsOf s.db i.id).filter _)
      (List.nodup_singleton a)).mpr fun b => ?_
    simp only [List.mem_filter, Database.mem_attemptsOf, decide_eq_true_eq, List.mem_singleton]
    constructor
    · rintro ⟨⟨hb, hbi⟩, hbs⟩
      have hbn := ((hat.running b hb hbi).mp hbs).2
      exact Database.attempt_eq_of_number hb ha (hbi.trans hai.symm) (hbn.trans han.symm)
    · rintro rfl
      exact ⟨⟨ha, hai⟩, (hat.running b ha hai).mpr ⟨hrun, han⟩⟩
  · obtain ⟨ha, hai⟩ := Database.mem_attemptsOf.mp ha
    exact hn.not_running hi hrest ha hai

/-- The recovered invocation of `lostWorkerRun` is running its second attempt. -/
theorem attempt_ledger_lostWorker : ∃ s, Reachable step init s ∧ ∃ i ∈ s.db.invocations,
    i.status = .running ∧ i.attemptCount = 2 ∧
    ((s.db.attemptsOf i.id).map (·.attemptNumber)).Perm [1, 2] ∧
    ∃ a, a.attemptNumber = 2 ∧
      (s.db.attemptsOf i.id).filter (fun b => b.status = .running) = [a] := by
  obtain ⟨s, hs, hp⟩ := reachable_of_replay step lostWorkerRun
    (fun s => s.db.invocations.rows.any fun i => i.status = .running ∧ i.attemptCount = 2)
    init_empty (by decide)
  simp only [List.any_eq_true, decide_eq_true_eq] at hp
  obtain ⟨i, hi, hrun, hcount⟩ := hp
  obtain ⟨hperm, hone, -⟩ := attempt_ledger hs (i := i) hi
  rw [hcount] at hperm hone
  exact ⟨s, hs, i, hi, hrun, hcount, hperm, hone hrun⟩

end Serverless.Ledger
