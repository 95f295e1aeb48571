import Serverless.Ledger.Backoff
import Serverless.Library.Fairness

/-!
# The turns of the outbox

The batch select takes the due rows in the order in which they were created. So a row waits for those
that are no younger, and a pass that reports no failure takes the size of its batch off their number,
whatever is created, retried, started or recovered in between.
-/
namespace Serverless.Ledger

open Serverless.Library Serverless.Model

variable {s t : State} {c : Call} {db : Database} {d o : InvocationDispatch}

/-! ## What a pass does to a row -/

/-- The columns of a row that no pass changes. -/
structure SameRow (d d' : InvocationDispatch) : Prop where
  id : d'.id = d.id
  invocationId : d'.invocationId = d.invocationId
  attemptNumber : d'.attemptNumber = d.attemptNumber
  createdAt : d'.createdAt = d.createdAt
  availableAt : d'.availableAt = d.availableAt

namespace SameRow

theorem refl (d : InvocationDispatch) : SameRow d d := ⟨rfl, rfl, rfl, rfl, rfl⟩

theorem trans {d e f : InvocationDispatch} (h : SameRow d e) (h' : SameRow e f) : SameRow d f where
  id := h'.id.trans h.id
  invocationId := h'.invocationId.trans h.invocationId
  attemptNumber := h'.attemptNumber.trans h.attemptNumber
  createdAt := h'.createdAt.trans h.createdAt
  availableAt := h'.availableAt.trans h.availableAt

end SameRow

theorem publishDispatch_sameRow (db : Database) (d : InvocationDispatch) (outcome : PublishOutcome)
    (messageId : StreamId) (now : Time) : SameRow d (publishDispatch db d outcome messageId now).1 := by
  unfold publishDispatch
  split
  · exact ⟨rfl, rfl, rfl, rfl, rfl⟩
  · cases outcome <;> exact ⟨rfl, rfl, rfl, rfl, rfl⟩

/-- The objects of a batch are its rows, each after its turn. -/
theorem publishAll_sameRows (db : Database) (todo : List InvocationDispatch)
    (outcomes : List (PublishOutcome × Time)) (stream : List StreamMessage) :
    List.Forall₂ SameRow todo (publishAll db todo outcomes stream).1 := by
  induction todo generalizing outcomes stream with
  | nil => exact .nil
  | cons d todo ih =>
    simp only [publishAll]
    exact .cons (publishDispatch_sameRow _ _ _ _ _) (ih _ _)

/-- The stream only grows in a batch. -/
theorem publishAll_stream (db : Database) (todo : List InvocationDispatch)
    (outcomes : List (PublishOutcome × Time)) (stream : List StreamMessage) :
    stream <+: (publishAll db todo outcomes stream).2 := by
  induction todo generalizing outcomes stream with
  | nil => exact List.prefix_rfl
  | cons d todo ih =>
    simp only [publishAll]
    exact (List.prefix_append _ _).trans (ih _ _)

theorem publishDispatch_published {outcome : PublishOutcome} {messageId : StreamId} {now : Time}
    (hd : d.publishedAt = none)
    (h : (publishDispatch db d outcome messageId now).1.publishedAt.isSome) :
    ∃ m, (publishDispatch db d outcome messageId now).2 = some m ∧ m.invocationId = d.invocationId ∧
      m.attemptNumber = d.attemptNumber := by
  unfold publishDispatch at h ⊢
  split at h
  · simp [InvocationDispatch.invocationGone, hd] at h
  · rename_i i hget
    cases outcome with
    | returned => exact ⟨_, rfl, (Table.get_key hget :), rfl⟩
    | raisedAfterAdd | raised => simp [InvocationDispatch.publishFailed, hd] at h

/-- An object that is published has put its message on the stream. -/
theorem publishAll_published {todo : List InvocationDispatch} {outcomes : List (PublishOutcome × Time)}
    {stream : List StreamMessage} (htodo : ∀ d ∈ todo, d.publishedAt = none)
    (ho : o ∈ (publishAll db todo outcomes stream).1) (h : o.publishedAt.isSome) :
    ∃ m ∈ (publishAll db todo outcomes stream).2, m.invocationId = o.invocationId ∧
      m.attemptNumber = o.attemptNumber := by
  induction todo generalizing outcomes stream with
  | nil => cases ho
  | cons d todo ih =>
    rw [List.forall_mem_cons] at htodo
    simp only [publishAll, List.mem_cons] at ho ⊢
    rcases ho with rfl | ho
    · obtain ⟨m, hm, hmi, hmn⟩ := publishDispatch_published htodo.1 h
      have hsame := publishDispatch_sameRow db d (outcomes.headD (.raised, 0)).1 (stream.length + 1)
        (outcomes.headD (.raised, 0)).2
      refine ⟨m, (publishAll_stream _ _ _ _).subset ?_, hmi.trans hsame.invocationId.symm,
        hmn.trans hsame.attemptNumber.symm⟩
      exact List.mem_append_right _ (Option.mem_toList.mpr hm)
    · exact ih htodo.2 ho

/-- What the commit makes of a row. -/
def flushed (done : List InvocationDispatch) (row : InvocationDispatch) : InvocationDispatch :=
  match done.find? fun o => o.id = row.id with
  | some o => o.flushTo row
  | none => row

theorem commitDispatches_rows (db : Database) (done : List InvocationDispatch) :
    (commitDispatches db done).dispatches.rows = db.dispatches.rows.map (flushed done) := by
  refine List.map_congr_left fun row _ => ?_
  unfold flushed
  dsimp only
  cases done.find? fun o => decide (o.id = row.id) <;> rfl

theorem flushed_sameRow (done : List InvocationDispatch) (row : InvocationDispatch) :
    SameRow row (flushed done row) := by
  unfold flushed
  split <;> exact ⟨rfl, rfl, rfl, rfl, rfl⟩

/-- The order of the batch select. -/
theorem batch_total : Std.Total fun d e : InvocationDispatch =>
    d.createdAt < e.createdAt ∨ d.createdAt = e.createdAt ∧ d.id ≤ e.id where
  total d e := by
    rcases lt_trichotomy d.createdAt e.createdAt with hlt | heq | hgt
    · exact .inl (.inl hlt)
    · rcases BitVec.le_total d.id e.id with hle | hle
      · exact .inl (.inr ⟨heq, hle⟩)
      · exact .inr (.inr ⟨heq.symm, hle⟩)
    · exact .inr (.inl hgt)

theorem batch_trans : IsTrans InvocationDispatch fun d e =>
    d.createdAt < e.createdAt ∨ d.createdAt = e.createdAt ∧ d.id ≤ e.id where
  trans a b c := by
    rintro (hab | ⟨hab, hid⟩) (hbc | ⟨hbc, hid'⟩)
    · exact .inl (hab.trans hbc)
    · exact .inl (hbc ▸ hab)
    · exact .inl (hab ▸ hbc)
    · exact .inr ⟨hab.trans hbc, BitVec.le_trans hid hid'⟩

section Pass

variable {limit : Nat} {now : Time} {outcomes : List (PublishOutcome × Time)} {stream : List StreamMessage}

/-- The objects of a pass. -/
def passed (db : Database) (stream : List StreamMessage) (limit : Nat) (now : Time)
    (outcomes : List (PublishOutcome × Time)) : List InvocationDispatch :=
  (publishAll db (db.dueDispatches now limit []) outcomes stream).1

theorem dispatchPending_rows : (dispatchPending db stream limit now outcomes).1.dispatches.rows =
    db.dispatches.rows.map (flushed (passed db stream limit now outcomes)) :=
  commitDispatches_rows _ _

theorem mem_passed (ho : o ∈ passed db stream limit now outcomes) :
    ∃ row ∈ db.dueDispatches now limit [], SameRow row o := by
  obtain ⟨i, hi, rfl⟩ := List.getElem_of_mem ho
  have hall := publishAll_sameRows db (db.dueDispatches now limit []) outcomes stream
  have hlen := hall.length_eq
  exact ⟨_, List.getElem_mem (hlen ▸ hi), hall.get (hlen ▸ hi) hi⟩

theorem passed_mem (stream : List StreamMessage) (outcomes : List (PublishOutcome × Time))
    {row : InvocationDispatch} (hrow : row ∈ db.dueDispatches now limit []) :
    ∃ o ∈ passed db stream limit now outcomes, o.id = row.id := by
  obtain ⟨i, hi, rfl⟩ := List.getElem_of_mem hrow
  have hall := publishAll_sameRows db (db.dueDispatches now limit []) outcomes stream
  have hlen := hall.length_eq
  exact ⟨_, List.getElem_mem (hlen ▸ hi), (hall.get hi (hlen ▸ hi)).id⟩

/-- A published row is not taken again. -/
theorem flushed_of_published (hd : d ∈ db.dispatches) (h : d.publishedAt.isSome) :
    flushed (passed db stream limit now outcomes) d = d := by
  unfold flushed
  split
  · rename_i o hfind
    obtain ⟨row, hrow, hsame⟩ := mem_passed (List.mem_of_find?_eq_some hfind)
    obtain ⟨hrow, hnone, -⟩ := Database.mem_dueDispatches hrow
    have hid : o.id = d.id := by simpa using List.find?_some hfind
    obtain rfl := Table.eq_of_key hrow hd (hsame.id.symm.trans hid)
    rw [hnone] at h
    cases h
  · rfl

/-- A pass that reports no failure has published its rows. -/
theorem flushed_published (hfailed : (dispatchPending db stream limit now outcomes).2.2.failed = 0)
    (hd : d ∈ db.dueDispatches now limit []) :
    (flushed (passed db stream limit now outcomes) d).publishedAt.isSome := by
  obtain ⟨o, ho, hid⟩ := passed_mem stream outcomes hd
  unfold flushed
  split
  · rename_i o' hfind
    have hnone : (passed db stream limit now outcomes).countP (fun o => o.publishedAt.isNone) = 0 := hfailed
    have hsome := List.countP_eq_zero.mp hnone o' (List.mem_of_find?_eq_some hfind)
    simpa [InvocationDispatch.flushTo, Option.isSome_iff_ne_none] using hsome
  · rename_i hfind
    exact absurd hid (by simpa using List.find?_eq_none.mp hfind o ho)

/-- The rows that are served before this one: they wait and are no younger. -/
def ahead (db : Database) (d : InvocationDispatch) : Nat :=
  db.dispatches.rows.countP fun e =>
    decide (e.publishedAt = none ∧ e.createdAt ≤ d.createdAt ∧ e.id ≠ d.id)

theorem ahead_congr {d' : InvocationDispatch} (h : SameRow d d') : ahead db d' = ahead db d := by
  unfold ahead
  rw [h.createdAt, h.id]

/-- A row that still waits was waiting, and was not in a batch without failures. -/
theorem waiting_before {e : InvocationDispatch} (he : e ∈ db.dispatches)
    (h : (flushed (passed db stream limit now outcomes) e).publishedAt = none) :
    e.publishedAt = none ∧ ((dispatchPending db stream limit now outcomes).2.2.failed = 0 →
      e ∉ db.dueDispatches now limit []) := by
  constructor
  · by_contra hsome
    rw [flushed_of_published he (Option.isSome_iff_ne_none.mpr hsome)] at h
    exact hsome h
  · intro hfailed hbatch
    have hpublished := flushed_published hfailed hbatch
    rw [h] at hpublished
    cases hpublished

/-- No pass puts a row ahead. -/
theorem dispatchPending_ahead (d : InvocationDispatch) :
    ahead (dispatchPending db stream limit now outcomes).1 d ≤ ahead db d := by
  unfold ahead
  rw [dispatchPending_rows, List.countP_map]
  refine List.countP_mono_left fun e he hahead => ?_
  simp only [Function.comp_apply, decide_eq_true_eq] at hahead ⊢
  obtain ⟨hnone, hcreated, hid⟩ := hahead
  have hsame := flushed_sameRow (passed db stream limit now outcomes) e
  exact ⟨(waiting_before he hnone).1, hsame.createdAt ▸ hcreated, hsame.id ▸ hid⟩

/-- **A pass without failures serves a due row or takes its batch off the rows ahead.** -/
theorem dispatchPending_serves (hd : d ∈ db.dispatches) (hdue : d.availableAt ≤ now)
    (hfailed : (dispatchPending db stream limit now outcomes).2.2.failed = 0) :
    (flushed (passed db stream limit now outcomes) d).publishedAt.isSome ∨
      ahead (dispatchPending db stream limit now outcomes).1 d + limit ≤ ahead db d := by
  by_cases hpublished : d.publishedAt.isSome
  · left
    rwa [flushed_of_published hd hpublished]
  have hwaits : d.publishedAt = none := by simpa using hpublished
  by_cases hbatch : d ∈ db.dueDispatches now limit []
  · exact .inl (flushed_published hfailed hbatch)
  right
  have := batch_total
  have := batch_trans
  have hmem : d ∈ db.dispatches.rows.filter fun e =>
      e.publishedAt = none ∧ e.availableAt ≤ now ∧ e.id ∉ ([] : List UUID) := by
    rw [List.mem_filter]
    exact ⟨hd, by simpa using ⟨hwaits, hdue⟩⟩
  obtain ⟨hlen, hbefore⟩ := (take_or_ahead hmem limit).resolve_left hbatch
  have hrest : ahead (dispatchPending db stream limit now outcomes).1 d ≤ db.dispatches.rows.countP fun e =>
      decide (e.publishedAt = none ∧ e.createdAt ≤ d.createdAt ∧ e.id ≠ d.id) &&
        decide (e ∉ db.dueDispatches now limit []) := by
    unfold ahead
    rw [dispatchPending_rows, List.countP_map]
    refine List.countP_mono_left fun e he hahead => ?_
    simp only [Function.comp_apply, decide_eq_true_eq, Bool.and_eq_true] at hahead ⊢
    obtain ⟨hnone, hcreated, hid⟩ := hahead
    have hsame := flushed_sameRow (passed db stream limit now outcomes) e
    obtain ⟨hwaiting, hleft⟩ := waiting_before he hnone
    exact ⟨⟨hwaiting, hsame.createdAt ▸ hcreated, hsame.id ▸ hid⟩, hleft hfailed⟩
  have hcount := countP_rest_add_length_le
    (p := fun e => decide (e.publishedAt = none ∧ e.createdAt ≤ d.createdAt ∧ e.id ≠ d.id))
    (List.Nodup.of_map _ (Database.nodup_dueDispatches db now limit [])) fun e he => by
      obtain ⟨hrow, hnone, -⟩ := Database.mem_dueDispatches he
      refine ⟨hrow, decide_eq_true ⟨hnone, ?_, fun hid => hbatch (Table.eq_of_key hrow hd hid ▸ he)⟩⟩
      rcases hbefore e he with hlt | ⟨heq, -⟩
      · exact hlt.le
      · exact heq.le
  unfold ahead at hrest ⊢
  change (db.dueDispatches now limit []).length = limit at hlen
  omega

end Pass

/-! ## What a call does to the outbox -/

/-- A call leaves the outbox alone, adds a row that waits, or is a pass. -/
inductive OutboxEffect (s t : State) : Call → Prop where
  | kept (c : Call) (hd : t.db.dispatches = s.db.dispatches) (hs : t.stream = s.stream) :
      OutboxEffect s t c
  | added (c : Call) (row : InvocationDispatch) (hnow : row.createdAt ∈ c.readings)
      (hwaits : row.publishedAt = none) (hd : t.db.dispatches.rows = s.db.dispatches.rows ++ [row])
      (hs : t.stream = s.stream) : OutboxEffect s t c
  | pass (limit : Nat) (now : Time) (outcomes : List (PublishOutcome × Time))
      (hd : t.db = (dispatchPending s.db s.stream limit now outcomes).1)
      (hs : t.stream = (dispatchPending s.db s.stream limit now outcomes).2.1) :
      OutboxEffect s t (.dispatchPending limit now outcomes)

theorem Effect.outbox (h : Effect s c t) : OutboxEffect s t c := by
  cases h with
  | unrelated c db hi ha hd => exact .kept _ hd rfl
  | created request version invocationId dispatchId now db hc =>
    obtain ⟨_, _, -, hi, rfl⟩ := insertInvocation_ok hc
    exact .added _ _ List.mem_cons_self rfl (Table.insert_rows hi) rfl
  | dispatched limit now outcomes => exact .pass limit now outcomes rfl rfl
  | marked message messageId recovered workerId attemptId now hm =>
    rcases hr : markRunning s.db (parseInvocationTask messageId message recovered) workerId
      attemptId now with ⟨db', r⟩
    exact .kept _ (markRunning_dispatches hr) rfl
  | finished invocationId attemptId attempt result policy dispatchId now ha hr =>
    rcases hm : markFinished s.db invocationId attemptId none result
      (policy.decide result attempt.attemptNumber) dispatchId now with ⟨db', r⟩
    cases markFinished_cases hm with
    | retried i a dispatches _ _ _ _ _ _ hv =>
      exact .added _ _ List.mem_cons_self rfl (Table.insert_rows hv) rfl
    | raised | rejected | completed => exact .kept _ rfl rfl
  | recovered => exact .kept _ (commitRecovery_dispatches _ _ _) rfl

namespace OutboxEffect

/-- A row stays, and a published one as it is. -/
theorem row_later (h : OutboxEffect s t c) (hd : d ∈ s.db.dispatches) :
    ∃ d' ∈ t.db.dispatches, SameRow d d' ∧ (d.publishedAt.isSome → d' = d) := by
  cases h with
  | kept c hdispatches hs => exact ⟨d, hdispatches ▸ hd, .refl d, fun _ => rfl⟩
  | added c row hnow hwaits hrows hs =>
    refine ⟨d, ?_, .refl d, fun _ => rfl⟩
    rw [← Table.mem_rows, hrows]
    exact List.mem_append_left _ hd
  | pass limit now outcomes hdb hs =>
    refine ⟨flushed (passed s.db s.stream limit now outcomes) d, ?_, flushed_sameRow _ d,
      flushed_of_published hd⟩
    rw [← Table.mem_rows, hdb, dispatchPending_rows]
    exact List.mem_map_of_mem hd

/-- Only a call that reads the time at which the row was created, or an earlier one, can put another
row ahead of it. -/
theorem ahead_le (h : OutboxEffect s t c) (hlater : ∀ now ∈ c.readings, d.createdAt < now) :
    ahead t.db d ≤ ahead s.db d := by
  cases h with
  | kept c hdispatches hs =>
    unfold ahead
    rw [hdispatches]
  | added c row hnow hwaits hrows hs =>
    unfold ahead
    rw [hrows, List.countP_append]
    have hyoung : ¬ row.createdAt ≤ d.createdAt := not_le.mpr (hlater _ hnow)
    simp [hyoung]
  | pass limit now outcomes hdb hs =>
    rw [hdb]
    exact dispatchPending_ahead d

theorem stream_subset (h : OutboxEffect s t c) : s.stream ⊆ t.stream := by
  cases h with
  | kept c hdispatches hs => exact hs ▸ List.Subset.refl _
  | added c row hnow hwaits hrows hs => exact hs ▸ List.Subset.refl _
  | pass limit now outcomes hdb hs =>
    rw [hs]
    exact (publishAll_stream s.db (s.db.dueDispatches now limit []) outcomes s.stream).subset

/-- A published row has its message on the stream. -/
theorem sent (h : OutboxEffect s t c)
    (hsent : ∀ d ∈ s.db.dispatches, d.publishedAt.isSome →
      ∃ m ∈ s.stream, m.invocationId = d.invocationId ∧ m.attemptNumber = d.attemptNumber) :
    ∀ d ∈ t.db.dispatches, d.publishedAt.isSome →
      ∃ m ∈ t.stream, m.invocationId = d.invocationId ∧ m.attemptNumber = d.attemptNumber := by
  intro d hd hpublished
  cases h with
  | kept c hdispatches hs =>
    rw [hs]
    exact hsent d (hdispatches ▸ hd) hpublished
  | added c row hnow hwaits hrows hs =>
    rw [hs]
    rw [← Table.mem_rows, hrows, List.mem_append, List.mem_singleton] at hd
    rcases hd with hd | rfl
    · exact hsent d hd hpublished
    · rw [hwaits] at hpublished
      cases hpublished
  | pass limit now outcomes hdb hs =>
    rw [hs]
    rw [← Table.mem_rows, hdb, dispatchPending_rows] at hd
    obtain ⟨row, hrow, rfl⟩ := List.mem_map.mp hd
    have hsame := flushed_sameRow (passed s.db s.stream limit now outcomes) row
    rw [hsame.invocationId, hsame.attemptNumber]
    have hgrows := publishAll_stream s.db (s.db.dueDispatches now limit []) outcomes s.stream
    unfold flushed at hpublished
    split at hpublished
    · rename_i o hfind
      obtain ⟨due, hdue, hsame'⟩ := mem_passed (List.mem_of_find?_eq_some hfind)
      have hid : o.id = row.id := by simpa using List.find?_some hfind
      obtain rfl := Table.eq_of_key (Database.mem_dueDispatches hdue).1 hrow (hsame'.id.symm.trans hid)
      obtain ⟨m, hm, hmi, hmn⟩ := publishAll_published (fun e he => (Database.mem_dueDispatches he).2.1)
        (List.mem_of_find?_eq_some hfind) hpublished
      exact ⟨m, hm, hmi.trans hsame'.invocationId, hmn.trans hsame'.attemptNumber⟩
    · obtain ⟨m, hm, hrest⟩ := hsent row hrow hpublished
      exact ⟨m, hgrows.subset hm, hrest⟩

end OutboxEffect

theorem sent_reachable {s : State} (h : Reachable step init s) : ∀ d ∈ s.db.dispatches,
    d.publishedAt.isSome → ∃ m ∈ s.stream, m.invocationId = d.invocationId ∧
      m.attemptNumber = d.attemptNumber := by
  refine h.invariant (fun s hs => ?_) fun _ hsent hs => (step_effect hs).outbox.sent hsent
  obtain ⟨functions, versions, rfl⟩ := hs
  exact fun d hd => absurd hd (Table.not_mem_empty d)

/-! ## Runs -/

/-- The turns that a call gives to the rows ahead of this one: a batch, if the call is a pass that
comes when the row is due and reports no failure. -/
def turns (d : InvocationDispatch) (s : Clocked) : Call → Nat
  | .dispatchPending limit now outcomes =>
    if d.availableAt ≤ now ∧
        (dispatchPending s.ledger.db s.ledger.stream limit now outcomes).2.2.failed = 0 then limit
    else 0
  | _ => 0

/-- The row is there, and has been published. -/
def IsPublished (s : Clocked) (d : InvocationDispatch) : Prop :=
  ∃ d' ∈ s.ledger.db.dispatches, SameRow d d' ∧ d'.publishedAt.isSome

/-- The row is there, and whatever is created from now on is younger. -/
def InQueue (d : InvocationDispatch) (s : Clocked) : Prop :=
  (∃ d' ∈ s.ledger.db.dispatches, SameRow d d') ∧ d.createdAt < s.clock

theorem InQueue.step {s t : Clocked} (h : InQueue d s) (hs : Clocked.step s c = some t) :
    InQueue d t ∧ (IsPublished t d ∨ ahead t.ledger.db d + turns d s c ≤ ahead s.ledger.db d) := by
  obtain ⟨⟨d', hd', hsame⟩, hclock⟩ := h
  obtain ⟨hledger, hle, hreadings⟩ := Clocked.step_some hs
  have heffect := (step_effect hledger).outbox
  obtain ⟨e, he, hde, -⟩ := heffect.row_later hd'
  refine ⟨⟨⟨e, he, hsame.trans hde⟩, hclock.trans_le hle⟩, ?_⟩
  have hahead := heffect.ahead_le (d := d) fun now hnow => hclock.trans_le (hreadings now hnow).1
  cases c with
  | dispatchPending limit now outcomes =>
    have hdb : (dispatchPending s.ledger.db s.ledger.stream limit now outcomes).1 = t.ledger.db :=
      congrArg State.db (Option.some.inj hledger)
    simp only [turns]
    split
    · rename_i hgood
      rcases dispatchPending_serves hd' (hsame.availableAt.trans_le hgood.1) hgood.2 with hserved | hless
      · refine .inl ⟨_, ?_, hsame.trans (flushed_sameRow _ d'), hserved⟩
        rw [← Table.mem_rows, ← hdb, dispatchPending_rows]
        exact List.mem_map_of_mem hd'
      · right
        rw [← hdb, ← ahead_congr hsame, ← ahead_congr hsame]
        exact hless
    · exact .inr hahead
  | _ => exact .inr hahead

/-- What has been published stays so. -/
theorem IsPublished.step {s t : Clocked} (h : IsPublished s d) (hs : Clocked.step s c = some t) :
    IsPublished t d := by
  obtain ⟨d', hd', hsame, hpublished⟩ := h
  obtain ⟨e, he, hde, hkept⟩ := (step_effect (Clocked.step_some hs).1).outbox.row_later hd'
  exact ⟨e, he, hsame.trans hde, (hkept hpublished).symm ▸ hpublished⟩

theorem IsPublished.message {s : Clocked} (h : IsPublished s d) (hr : Reachable Clocked.step Clocked.init s) :
    ∃ m ∈ s.ledger.stream, m.invocationId = d.invocationId ∧ m.attemptNumber = d.attemptNumber := by
  obtain ⟨d', hd', hsame, hpublished⟩ := h
  obtain ⟨m, hm, hmi, hmn⟩ := sent_reachable (Clocked.reachable_ledger hr) d' hd' hpublished
  exact ⟨m, hm, hmi.trans hsame.invocationId, hmn.trans hsame.attemptNumber⟩

/-- **No row of the outbox starves.** A row that waits is published, and its message is on the stream,
as soon as the passes that come when it is due and report no failure have taken more turns than there
were rows ahead of it, whatever else the run does, failed passes and younger rows included. -/
theorem outbox_serves_in_turn {s t : Clocked} (h : Reachable Clocked.step Clocked.init s)
    (hd : d ∈ s.ledger.db.dispatches) (hcreated : d.createdAt < s.clock) {calls : List Call}
    (hrun : replay Clocked.step s calls = some t)
    (hturns : ahead s.ledger.db d < sumOver (turns d) (trace Clocked.step s calls)) :
    ∃ d' ∈ t.ledger.db.dispatches, SameRow d d' ∧ d'.publishedAt.isSome ∧
      ∃ m ∈ t.ledger.stream, m.invocationId = d.invocationId ∧ m.attemptNumber = d.attemptNumber := by
  have hserved : IsPublished t d := served_of_turns (I := InQueue d) (fun hI hs => hI.step hs)
    (fun _ hp hs => hp.step hs) ⟨⟨d, hd, .refl d⟩, hcreated⟩ hrun hturns
  obtain ⟨m, hm, hmessage⟩ := hserved.message (h.run (steps_of_replay hrun))
  obtain ⟨d', hd', hsame, hpublished⟩ := hserved
  exact ⟨d', hd', hsame, hpublished, m, hm, hmessage⟩

/-- Two invocations of one function. -/
def twoInvocations : List Call :=
  [.createFunction ⟨1, 7, "hello", none⟩,
    .createFunctionVersion (helloVersion 30),
    .createInvocation { ownerId := 7, functionName := "hello", payload := .null } 3 4 0,
    .createInvocation { ownerId := 7, functionName := "hello", payload := .null } 5 6 (seconds 1),
    .registerWorker 8 "host" 2 (some "host-1") (seconds 2)]

/-- Redis is out of reach, and a younger invocation comes, before two batches of one. -/
def smallBatches : List Call :=
  [.dispatchPending 1 (seconds 3) [(.raised, seconds 3)],
    .createInvocation { ownerId := 7, functionName := "hello", payload := .null } 10 11 (seconds 4),
    .dispatchPending 1 (seconds 5) [(.returned, seconds 5)],
    .dispatchPending 1 (seconds 6) [(.returned, seconds 6)]]

/-- The second invocation is published by the second batch. -/
theorem outbox_serves_in_turn_second : ∃ s t, Reachable Clocked.step Clocked.init s ∧
    replay Clocked.step s smallBatches = some t ∧ ∃ d ∈ s.ledger.db.dispatches, d.id = 6 ∧
      ahead s.ledger.db d = 1 ∧ sumOver (turns d) (trace Clocked.step s smallBatches) = 2 ∧
      ∃ d' ∈ t.ledger.db.dispatches, SameRow d d' ∧ d'.publishedAt.isSome ∧
        ∃ m ∈ t.ledger.stream, m.invocationId = d.invocationId ∧ m.attemptNumber = d.attemptNumber := by
  obtain ⟨s, hs, hp⟩ := reachable_of_replay Clocked.step twoInvocations
    (fun s => (replay Clocked.step s smallBatches).isSome && s.ledger.db.dispatches.rows.any fun d =>
      d.id = 6 ∧ d.createdAt < s.clock ∧ ahead s.ledger.db d = 1 ∧
        sumOver (turns d) (trace Clocked.step s smallBatches) = 2)
    (show Clocked.init ⟨0, empty⟩ from init_empty) (by decide +kernel)
  simp only [Bool.and_eq_true, Option.isSome_iff_exists, List.any_eq_true, decide_eq_true_eq] at hp
  obtain ⟨⟨t, ht⟩, d, hd, hid, hcreated, hahead, hturns⟩ := hp
  exact ⟨s, t, hs, ht, d, hd, hid, hahead, hturns,
    outbox_serves_in_turn hs hd hcreated ht (by rw [hahead, hturns]; decide)⟩

end Serverless.Ledger
