import Mathlib.Data.List.Flatten
import Serverless.Cluster.System

/-!
# Outbox publication

Every entry of the stream comes from an outbox row that was due, every published row has
its entry, and each further entry of a row is paid for by a rollback of a batch that had
published it or by a publish that failed after adding it. The count is kept by an
inequality with one more term: the batches in progress that have published the row.
-/
namespace Serverless.Cluster

open Serverless.Library Serverless.Model

abbrev DispatchTable := Table InvocationDispatch.id InvocationDispatch.invocationNumber

/-- The entry carries the pair of the row. -/
def carries (e : Entry StreamMessage) (d : InvocationDispatch) : Bool :=
  e.fields.invocationId = d.invocationId ∧ e.fields.attemptNumber = d.attemptNumber

/-- How many entries of the stream carry the pair of the row. -/
def entriesOf (g : Group) (d : InvocationDispatch) : Nat := g.entries.countP (carries · d)

/-- Two versions of one outbox row. -/
def Same (d d' : InvocationDispatch) : Prop :=
  d.id = d'.id ∧ d.invocationId = d'.invocationId ∧ d.attemptNumber = d'.attemptNumber

/-- A row that says it was published names the entry. -/
def Recorded (g : Group) (d : InvocationDispatch) : Prop :=
  d.publishedAt ≠ none → ∃ id e, d.publishedMessageId = some id ∧ g.entry id = some e ∧
    carries e d = true

def publishedFlag (d : InvocationDispatch) : Nat := if d.publishedAt.isSome then 1 else 0

structure OutboxInv (t : DispatchTable) (g : Group) (batches : List Batch) (clock : Time)
    (rolledBack added : List UUID) : Prop where
  locked : (batches.flatMap Batch.ids).Nodup
  rows : ∀ b ∈ batches, ∀ d ∈ b.done ++ b.todo, ∃ row ∈ t, Same row d ∧ row.publishedAt = none ∧
    row.availableAt ≤ clock
  fresh : ∀ b ∈ batches, ∀ d ∈ b.todo, d.publishedAt = none
  carried : ∀ e ∈ g.entries, ∃ row ∈ t, carries e row = true ∧ row.availableAt ≤ e.addedAt
  recorded : ∀ row ∈ t, Recorded g row
  recordedDone : ∀ b ∈ batches, ∀ d ∈ b.done, Recorded g d
  count : ∀ row ∈ t, entriesOf g row ≤ publishedFlag row +
    (batches.flatMap Batch.published).count row.id + rolledBack.count row.id + added.count row.id

theorem carries_congr {d d' : InvocationDispatch} (h : Same d d') (e : Entry StreamMessage) :
    carries e d = carries e d' := by
  unfold carries
  rw [h.2.1, h.2.2]

/-- The unique index: an entry carries the pair of one row only. -/
theorem eq_of_carries {t : DispatchTable} {e : Entry StreamMessage} {d d' : InvocationDispatch}
    (hd : d ∈ t) (hd' : d' ∈ t) (h : carries e d = true) (h' : carries e d' = true) : d = d' := by
  simp only [carries, decide_eq_true_eq] at h h'
  refine Table.eq_of_uniq hd hd' (x := (e.fields.invocationId, e.fields.attemptNumber)) ?_ ?_
  · rw [InvocationDispatch.invocationNumber, h.1, h.2]
  · rw [InvocationDispatch.invocationNumber, h'.1, h'.2]

theorem entry_congr {g g' : Group} (h : g'.entries = g.entries) (id : StreamId) :
    g'.entry id = g.entry id := by
  cases id with
  | zero => rfl
  | succ k => simp [ConsumerGroup.entry, h]

theorem Recorded.congr {g g' : Group} (h : g'.entries = g.entries) {d : InvocationDispatch}
    (hr : Recorded g d) : Recorded g' d := by
  intro hp
  obtain ⟨id, e, hid, he, hc⟩ := hr hp
  exact ⟨id, e, hid, (entry_congr h id).trans he, hc⟩

theorem Recorded.add {g : Group} {d : InvocationDispatch} (hr : Recorded g d) (m : StreamMessage)
    (now : Time) : Recorded (g.add m now) d := by
  intro hp
  obtain ⟨id, e, hid, he, hc⟩ := hr hp
  refine ⟨id, e, hid, ?_, hc⟩
  have hle := (ConsumerGroup.entry_eq_some he).2.1
  rw [ConsumerGroup.entry_add, if_neg (by omega)]
  exact he

/-- One turn of the publish loop: nothing was added, or an entry was added and the row object
says so, or an entry was added although the publish failed. -/
inductive Turn (db : Database) (d : InvocationDispatch) (messageId : StreamId) (now : Time) :
    PublishOutcome → InvocationDispatch → Option StreamMessage → Prop where
  | silent (outcome : PublishOutcome) (o : InvocationDispatch) (hs : Same o d)
      (hp : o.publishedAt = d.publishedAt) : Turn db d messageId now outcome o none
  | returned (o : InvocationDispatch) (m : StreamMessage) (hs : Same o d)
      (hp : o.publishedAt = some now) (hid : o.publishedMessageId = some messageId)
      (hm : m.invocationId = d.invocationId ∧ m.attemptNumber = d.attemptNumber) :
      Turn db d messageId now .returned o (some m)
  | added (o : InvocationDispatch) (m : StreamMessage) (hs : Same o d)
      (hp : o.publishedAt = d.publishedAt)
      (hm : m.invocationId = d.invocationId ∧ m.attemptNumber = d.attemptNumber) :
      Turn db d messageId now .raisedAfterAdd o (some m)

theorem publishDispatch_turn (db : Database) (d : InvocationDispatch) (outcome : PublishOutcome)
    (messageId : StreamId) (now : Time) :
    Turn db d messageId now outcome (publishDispatch db d outcome messageId now).1
      (publishDispatch db d outcome messageId now).2 := by
  unfold publishDispatch
  cases hget : db.invocations.get d.invocationId with
  | none => exact .silent outcome _ ⟨rfl, rfl, rfl⟩ rfl
  | some i =>
    have hid : i.id = d.invocationId := Table.get_key hget
    cases outcome with
    | returned => exact .returned _ _ ⟨rfl, rfl, rfl⟩ rfl rfl ⟨hid, rfl⟩
    | raisedAfterAdd => exact .added _ _ ⟨rfl, rfl, rfl⟩ rfl ⟨hid, rfl⟩
    | raised => exact .silent _ _ ⟨rfl, rfl, rfl⟩ rfl

namespace OutboxInv

variable {t t' : DispatchTable} {g g' : Group} {batches batches' : List Batch} {clock : Time}
  {rolledBack added : List UUID}

theorem perm (h : OutboxInv t g batches clock rolledBack added) (hp : batches.Perm batches') :
    OutboxInv t g batches' clock rolledBack added where
  locked := (hp.flatMap_right _).nodup_iff.mp h.locked
  rows := fun b hb => h.rows b (hp.mem_iff.mpr hb)
  fresh := fun b hb => h.fresh b (hp.mem_iff.mpr hb)
  carried := h.carried
  recorded := h.recorded
  recordedDone := fun b hb => h.recordedDone b (hp.mem_iff.mpr hb)
  count := fun row hrow => by
    rw [← (hp.flatMap_right Batch.published).count_eq row.id]
    exact h.count row hrow

theorem congr (h : OutboxInv t g batches clock rolledBack added)
    (he : g'.entries = g.entries) : OutboxInv t g' batches clock rolledBack added where
  locked := h.locked
  rows := h.rows
  fresh := h.fresh
  carried := fun e hm => h.carried e (he ▸ hm)
  recorded := fun row hrow => (h.recorded row hrow).congr he
  recordedDone := fun b hb d hd => (h.recordedDone b hb d hd).congr he
  count := fun row hrow => by
    rw [entriesOf, he]
    exact h.count row hrow

theorem tick (h : OutboxInv t g batches clock rolledBack added) {now : Time} (hn : clock ≤ now) :
    OutboxInv t g batches now rolledBack added where
  locked := h.locked
  rows := fun b hb d hd => by
    obtain ⟨row, hrow, hs, hp, ha⟩ := h.rows b hb d hd
    exact ⟨row, hrow, hs, hp, le_trans ha hn⟩
  fresh := h.fresh
  carried := h.carried
  recorded := h.recorded
  recordedDone := h.recordedDone
  count := h.count

/-- A new row: no entry carries its pair yet. -/
theorem insert (h : OutboxInv t g batches clock rolledBack added) {d : InvocationDispatch}
    (hd : d.publishedAt = none) (hi : t.insert d = .ok t') :
    OutboxInv t' g batches clock rolledBack added where
  locked := h.locked
  rows := fun b hb o ho => by
    obtain ⟨row, hrow, hp⟩ := h.rows b hb o ho
    exact ⟨row, (Table.mem_insert hi).mpr (Or.inl hrow), hp⟩
  fresh := h.fresh
  carried := fun e he => by
    obtain ⟨row, hrow, hp⟩ := h.carried e he
    exact ⟨row, (Table.mem_insert hi).mpr (Or.inl hrow), hp⟩
  recorded := fun row hrow => by
    rcases (Table.mem_insert hi).mp hrow with hrow | rfl
    · exact h.recorded row hrow
    · exact fun hp => absurd hd hp
  recordedDone := h.recordedDone
  count := fun row hrow => by
    rcases (Table.mem_insert hi).mp hrow with hold | rfl
    · exact h.count row hold
    · have hzero : entriesOf g row = 0 := by
        refine List.countP_eq_zero.mpr fun e he hc => ?_
        obtain ⟨row', hrow', hc', -⟩ := h.carried e he
        have heq := eq_of_carries hrow ((Table.mem_insert hi).mpr (Or.inl hrow')) hc hc'
        exact Table.insert_no_collision hi hrow' (x := (row.invocationId, row.attemptNumber)) rfl
          (heq ▸ rfl)
      rw [hzero]
      exact Nat.zero_le _

theorem rollback {b : Batch} (h : OutboxInv t g (b :: batches) clock rolledBack added) :
    OutboxInv t g batches clock (rolledBack ++ b.published) added where
  locked := (List.nodup_append'.mp (List.flatMap_cons ▸ h.locked)).2.1
  rows := fun b' hb => h.rows b' (List.mem_cons_of_mem _ hb)
  fresh := fun b' hb => h.fresh b' (List.mem_cons_of_mem _ hb)
  carried := h.carried
  recorded := h.recorded
  recordedDone := fun b' hb => h.recordedDone b' (List.mem_cons_of_mem _ hb)
  count := fun row hrow => by
    have hc := h.count row hrow
    rw [List.flatMap_cons, List.count_append] at hc
    rw [List.count_append]
    omega

theorem select {limit : Nat} {db : Database}
    (h : OutboxInv db.dispatches g batches clock rolledBack added) :
    OutboxInv db.dispatches g
      (⟨db.dueDispatches clock limit (batches.flatMap Batch.ids), []⟩ :: batches) clock rolledBack
      added := by
  set due := db.dueDispatches clock limit (batches.flatMap Batch.ids) with hdue
  have hmem : ∀ d ∈ due, d ∈ db.dispatches ∧ d.publishedAt = none ∧ d.availableAt ≤ clock ∧
      d.id ∉ batches.flatMap Batch.ids := fun d hd => Database.mem_dueDispatches hd
  refine ⟨?_, fun b hb d hd => ?_, fun b hb d hd => ?_, h.carried, h.recorded, fun b hb d hd => ?_,
    fun row hrow => ?_⟩
  · rw [List.flatMap_cons]
    refine List.nodup_append'.mpr ⟨?_, h.locked, fun id hid hid' => ?_⟩
    · exact Database.nodup_dueDispatches db clock limit _
    · obtain ⟨d, hd, rfl⟩ := List.mem_map.mp hid
      exact (hmem d hd).2.2.2 hid'
  · rcases List.mem_cons.mp hb with rfl | hb
    · obtain ⟨hd, hp, ha, -⟩ := hmem d hd
      exact ⟨d, hd, ⟨rfl, rfl, rfl⟩, hp, ha⟩
    · exact h.rows b hb d hd
  · rcases List.mem_cons.mp hb with rfl | hb
    · exact (hmem d hd).2.1
    · exact h.fresh b hb d hd
  · rcases List.mem_cons.mp hb with rfl | hb
    · cases hd
    · exact h.recordedDone b hb d hd
  · exact h.count row hrow

/-- Replace the row object whose turn it was, with the locks as they were. -/
theorem turn_frame {d o : InvocationDispatch} {todo done : List InvocationDispatch}
    (h : OutboxInv t g (⟨d :: todo, done⟩ :: batches) clock rolledBack added) (hs : Same o d) :
    ((⟨todo, done ++ [o]⟩ :: batches).flatMap Batch.ids).Nodup ∧
    (∀ b ∈ (⟨todo, done ++ [o]⟩ :: batches : List Batch), ∀ x ∈ b.done ++ b.todo, ∃ row ∈ t,
      Same row x ∧ row.publishedAt = none ∧ row.availableAt ≤ clock) ∧
    ∀ b ∈ (⟨todo, done ++ [o]⟩ :: batches : List Batch), ∀ x ∈ b.todo, x.publishedAt = none := by
  refine ⟨?_, fun b hb x hx => ?_, fun b hb x hx => ?_⟩
  · have hids : Batch.ids ⟨todo, done ++ [o]⟩ = Batch.ids ⟨d :: todo, done⟩ := by
      simp [Batch.ids, hs.1]
    rw [List.flatMap_cons, hids, ← List.flatMap_cons]
    exact h.locked
  · rcases List.mem_cons.mp hb with rfl | hb
    · by_cases hxo : x = o
      · obtain ⟨row, hrow, hsame, hp⟩ := h.rows _ List.mem_cons_self d (by simp)
        have hsame' : Same row o := ⟨hsame.1.trans hs.1.symm, hsame.2.1.trans hs.2.1.symm,
          hsame.2.2.trans hs.2.2.symm⟩
        exact ⟨row, hrow, hxo ▸ hsame', hp⟩
      · apply h.rows _ List.mem_cons_self x
        simp only [List.mem_append, List.mem_cons, List.not_mem_nil, or_false] at hx ⊢
        rcases hx with (hx | hx) | hx
        · exact Or.inl hx
        · exact absurd hx hxo
        · exact Or.inr (Or.inr hx)
    · exact h.rows b (List.mem_cons_of_mem _ hb) x hx
  · rcases List.mem_cons.mp hb with rfl | hb
    · exact h.fresh _ List.mem_cons_self x (List.mem_cons_of_mem _ hx)
    · exact h.fresh b (List.mem_cons_of_mem _ hb) x hx

/-- The row counts as published once its object says so. -/
theorem published_turn {d o : InvocationDispatch} (hid : o.id = d.id)
    {todo done : List InvocationDispatch} (id : UUID) :
    ((⟨todo, done ++ [o]⟩ :: batches).flatMap Batch.published).count id =
      ((⟨d :: todo, done⟩ :: batches).flatMap Batch.published).count id +
        (if o.publishedAt.isSome then [d.id] else []).count id := by
  simp only [List.flatMap_cons, Batch.published, List.filter_append, List.map_append,
    List.count_append]
  cases hp : o.publishedAt with
  | none => simp [hp]
  | some at' =>
    simp [hp, hid]
    omega

/-- An entry with the pair of a locked row: what it does to the entries and to the count. -/
theorem add_entry {b : Batch} {d : InvocationDispatch} {m : StreamMessage}
    (h : OutboxInv t g (b :: batches) clock rolledBack added) (hd : d ∈ b.done ++ b.todo)
    (hm : m.invocationId = d.invocationId ∧ m.attemptNumber = d.attemptNumber) :
    (∀ e ∈ (g.add m clock).entries, ∃ row ∈ t, carries e row = true ∧
      row.availableAt ≤ e.addedAt) ∧
    ∀ row ∈ t, entriesOf (g.add m clock) row ≤ entriesOf g row + [d.id].count row.id := by
  obtain ⟨row, hrow, hsame, -, ha⟩ := h.rows b List.mem_cons_self d hd
  have hc : carries ⟨m, clock⟩ row = true := by
    simp [carries, hm, hsame.2.1, hsame.2.2]
  refine ⟨fun e he => ?_, fun row' hrow' => ?_⟩
  · rcases List.mem_append.mp he with he | he
    · exact h.carried e he
    · rw [List.mem_singleton.mp he]
      exact ⟨row, hrow, hc, ha⟩
  · show List.countP (carries · row') (g.entries ++ [(⟨m, clock⟩ : Entry StreamMessage)]) ≤ _
    rw [List.countP_append, List.countP_singleton]
    by_cases hc' : carries ⟨m, clock⟩ row' = true
    · have heq : row' = row := eq_of_carries hrow' hrow hc' hc
      rw [if_pos hc', heq, hsame.1, List.count_singleton_self]
      exact Nat.le_refl _
    · rw [if_neg hc']
      exact Nat.le_add_right _ _

theorem turn {db : Database} {outcome : PublishOutcome} {m : Option StreamMessage}
    {d o : InvocationDispatch} {todo done : List InvocationDispatch}
    (h : OutboxInv t g (⟨d :: todo, done⟩ :: batches) clock rolledBack added)
    (ht : Turn db d (g.entries.length + 1) clock outcome o m) :
    OutboxInv t (addMessage g m clock) (⟨todo, done ++ [o]⟩ :: batches) clock rolledBack
      (if outcome = .raisedAfterAdd ∧ m.isSome then added ++ [d.id] else added) := by
  have hfresh : d.publishedAt = none := h.fresh _ List.mem_cons_self d List.mem_cons_self
  have hdone : ∀ {g'}, (∀ x, Recorded g x → Recorded g' x) → Recorded g' o →
      ∀ b ∈ (⟨todo, done ++ [o]⟩ :: batches : List Batch), ∀ x ∈ b.done, Recorded g' x := by
    intro g' hg ho b hb x hx
    rcases List.mem_cons.mp hb with rfl | hb
    · rcases List.mem_append.mp hx with hx | hx
      · exact hg x (h.recordedDone _ List.mem_cons_self x hx)
      · rw [List.mem_singleton.mp hx]
        exact ho
    · exact hg x (h.recordedDone b (List.mem_cons_of_mem _ hb) x hx)
  cases ht with
  | silent outcome o hs hp =>
    obtain ⟨hl, hr, hf⟩ := h.turn_frame hs
    rw [hfresh] at hp
    simp only [Option.isSome_none, Bool.false_eq_true, and_false, if_false]
    refine ⟨hl, hr, hf, h.carried, h.recorded,
      hdone (fun _ hx => hx) (fun hne => absurd hp hne), fun row hrow => ?_⟩
    rw [published_turn hs.1, hp]
    exact h.count row hrow
  | returned o m hs hp hid hm =>
    obtain ⟨hl, hr, hf⟩ := h.turn_frame hs
    obtain ⟨hcarried, hcount⟩ := h.add_entry (d := d) (by simp) hm
    have hrec : Recorded (g.add m clock) o := by
      intro _
      refine ⟨g.entries.length + 1, ⟨m, clock⟩, hid, ?_, ?_⟩
      · rw [ConsumerGroup.entry_add, if_pos rfl]
      · simp [carries, hm, hs.2.1, hs.2.2]
    refine ⟨hl, hr, hf, hcarried, fun row hrow => (h.recorded row hrow).add m clock,
      hdone (fun _ hx => hx.add m clock) hrec, fun row hrow => ?_⟩
    have h₁ := h.count row hrow
    have h₂ := hcount row hrow
    rw [published_turn hs.1, hp]
    simp only [Option.isSome_some, if_true, reduceCtorEq, false_and, if_false, addMessage]
    omega
  | added o m hs hp hm =>
    obtain ⟨hl, hr, hf⟩ := h.turn_frame hs
    obtain ⟨hcarried, hcount⟩ := h.add_entry (d := d) (by simp) hm
    rw [hfresh] at hp
    refine ⟨hl, hr, hf, hcarried, fun row hrow => (h.recorded row hrow).add m clock,
      hdone (fun _ hx => hx.add m clock) (fun hne => absurd hp hne), fun row hrow => ?_⟩
    have h₁ := h.count row hrow
    have h₂ := hcount row hrow
    rw [published_turn hs.1, hp]
    simp only [Option.isSome_some, and_self, if_true, List.count_append, addMessage]
    simp only [Option.isSome_none, Bool.false_eq_true, if_false, List.count_nil]
    omega

/-- A batch has published each of its rows at most once, and says so in the row object. -/
theorem published_count_le {done : List InvocationDispatch} (hn : (done.map (·.id)).Nodup)
    {o : InvocationDispatch} (ho : o ∈ done) :
    (Batch.published ⟨[], done⟩).count o.id ≤ publishedFlag o := by
  have hsub : (Batch.published ⟨[], done⟩).Sublist (done.map (·.id)) := List.filter_sublist.map _
  unfold publishedFlag
  split
  · exact List.nodup_iff_count_le_one.mp (hn.sublist hsub) o.id
  · rename_i hp
    refine Nat.le_zero.mpr (List.count_eq_zero.mpr fun hm => hp ?_)
    obtain ⟨o', ho', he⟩ := List.mem_map.mp hm
    obtain ⟨ho', hp'⟩ := List.mem_filter.mp ho'
    rwa [List.inj_on_of_nodup_map hn ho' ho he] at hp'

/-- A commit keeps every row, and changes those of its batch only. -/
theorem row_commit {db : Database} (done : List InvocationDispatch) {row : InvocationDispatch}
    (hr : row ∈ db.dispatches) : ∃ row' ∈ (commitDispatches db done).dispatches,
      Same row' row ∧ row'.availableAt = row.availableAt ∧
      ((∀ o ∈ done, o.id ≠ row.id) → row' = row) := by
  obtain ⟨row', hrow', hid, -, hc⟩ := Table.flush_mem (l := done) (k := (·.id))
    (f := InvocationDispatch.flushTo) (by exact fun _ _ => ⟨rfl, rfl⟩) hr
  refine ⟨row', hrow', ?_⟩
  rcases hc with rfl | ⟨o, ho, hk, rfl⟩
  · exact ⟨⟨rfl, rfl, rfl⟩, rfl, fun _ => rfl⟩
  · exact ⟨⟨rfl, rfl, rfl⟩, rfl, fun hall => absurd hk (hall o ho)⟩

theorem commit {db : Database} {done : List InvocationDispatch}
    (h : OutboxInv db.dispatches g (⟨[], done⟩ :: batches) clock rolledBack added) :
    OutboxInv (commitDispatches db done).dispatches g batches clock rolledBack added := by
  have hlocked := List.nodup_append'.mp (List.flatMap_cons ▸ h.locked)
  have hids : Batch.ids ⟨[], done⟩ = done.map (·.id) := by simp [Batch.ids]
  rw [hids] at hlocked
  -- the row under a row object of the batch
  have hrow : ∀ o ∈ done, ∀ row ∈ db.dispatches, o.id = row.id →
      Same row o ∧ row.publishedAt = none := by
    intro o ho row hr he
    obtain ⟨row', hrow', hs, hp, -⟩ := h.rows _ List.mem_cons_self o (by simpa using ho)
    obtain rfl : row' = row := Table.eq_of_key hrow' hr (hs.1.trans he)
    exact ⟨hs, hp⟩
  refine ⟨hlocked.2.1, fun b hb x hx => ?_, fun b hb => h.fresh b (List.mem_cons_of_mem _ hb),
    fun e he => ?_, fun d hd => ?_, fun b hb => h.recordedDone b (List.mem_cons_of_mem _ hb),
    fun d hd => ?_⟩
  · obtain ⟨row, hr, hs, hp, ha⟩ := h.rows b (List.mem_cons_of_mem _ hb) x hx
    obtain ⟨row', hrow', -, -, hsame⟩ := row_commit done hr
    have hfree : ∀ o ∈ done, o.id ≠ row.id := by
      intro o ho he
      have hin : x.id ∈ batches.flatMap Batch.ids :=
        List.mem_flatMap.mpr ⟨b, hb, List.mem_map_of_mem hx⟩
      apply hlocked.2.2 (List.mem_map_of_mem ho)
      rw [he, hs.1]
      exact hin
    rw [hsame hfree] at hrow'
    exact ⟨row, hrow', hs, hp, ha⟩
  · obtain ⟨row, hr, hc, ha⟩ := h.carried e he
    obtain ⟨row', hrow', hs, ha', -⟩ := row_commit done hr
    exact ⟨row', hrow', (carries_congr hs e).trans hc, ha'.trans_le ha⟩
  · obtain ⟨row, hr, ⟨rfl, -⟩ | ⟨o, ho, hk, rfl⟩⟩ := mem_commitDispatches hd
    · exact h.recorded d hr
    · intro hp
      obtain ⟨id, e, hid, he, hc⟩ := h.recordedDone _ List.mem_cons_self o ho hp
      exact ⟨id, e, hid, he, (carries_congr (hrow o ho row hr hk).1 e).trans hc⟩
  · obtain ⟨row, hr, ⟨rfl, hfree⟩ | ⟨o, ho, hk, rfl⟩⟩ := mem_commitDispatches hd
    · have hc := h.count d hr
      have hzero : (Batch.published ⟨[], done⟩).count d.id = 0 := by
        refine List.count_eq_zero.mpr fun hm => ?_
        obtain ⟨o, ho, he⟩ := List.mem_map.mp hm
        exact hfree o (List.mem_of_mem_filter ho) he
      rw [List.flatMap_cons, List.count_append, hzero] at hc
      omega
    · obtain ⟨-, hnone⟩ := hrow o ho row hr hk
      have hc := h.count row hr
      have hle := published_count_le hlocked.1 ho
      have hflag : publishedFlag row = 0 := by simp [publishedFlag, hnone]
      rw [List.flatMap_cons, List.count_append, hflag, ← hk] at hc
      show entriesOf g row ≤ publishedFlag o + _ + _ + _
      show _ ≤ _ + List.count row.id _ + List.count row.id _ + List.count row.id _
      rw [← hk]
      omega

end OutboxInv

/-- What a worker step leaves of the outbox: all but one new row. -/
structure OutboxFrame (s u : State) : Prop where
  batches : u.batches = s.batches
  clock : u.clock = s.clock
  rolledBack : u.rolledBack = s.rolledBack
  added : u.addedOnFailure = s.addedOnFailure
  entries : u.group.entries = s.group.entries
  dispatches : u.db.dispatches = s.db.dispatches ∨
    ∃ d, d.publishedAt = none ∧ s.db.dispatches.insert d = .ok u.db.dispatches

theorem WorkerEffect.outboxFrame {s u : State} {p p' : Process} {e : WorkerEvent}
    (h : WorkerEffect s p e u p') : OutboxFrame s u := by
  cases h with
  | own | claimed | autoclaimed | read | acked | offlined =>
    exact ⟨rfl, rfl, rfl, rfl, rfl, Or.inl rfl⟩
  | heartbeat db hdb =>
    obtain ⟨workers, rfl⟩ := recordHeartbeat_some hdb
    exact ⟨rfl, rfl, rfl, rfl, rfl, Or.inl rfl⟩
  | shutDown db _ hdb =>
    obtain ⟨workers, rfl⟩ := recordHeartbeat_some hdb
    exact ⟨rfl, rfl, rfl, rfl, rfl, Or.inl rfl⟩
  | scanned =>
    refine ⟨rfl, rfl, rfl, rfl, rfl, Or.inl ?_⟩
    rw [recoverStaleWorkers_db, commitRecovery_dispatches]
  | started j c attemptId db attempt hc hst hm =>
    exact ⟨rfl, rfl, rfl, rfl, rfl, Or.inl (markRunning_dispatches hm)⟩
  | dismissed j c attemptId db error hc hst hm =>
    exact ⟨rfl, rfl, rfl, rfl, rfl, Or.inl (markRunning_dispatches hm)⟩
  | notStarted j c attemptId db error hc hst hm =>
    exact ⟨rfl, rfl, rfl, rfl, rfl, Or.inl (markRunning_dispatches hm)⟩
  | finished j c attempt result jitter dispatchId db row hc hst hm =>
    exact ⟨rfl, rfl, rfl, rfl, rfl, markFinished_dispatches hm⟩

/-- The outbox invariant of a state. -/
def State.Outbox (s : State) : Prop :=
  OutboxInv s.db.dispatches s.group s.batches s.clock s.rolledBack s.addedOnFailure

theorem perm_of_getElem? {batches : List Batch} {b : Nat} {batch : Batch}
    (h : batches[b]? = some batch) : batches.Perm (batch :: batches.eraseIdx b) := by
  obtain ⟨hlt, he⟩ := List.getElem?_eq_some_iff.mp h
  exact he ▸ (List.getElem_cons_eraseIdx_perm hlt).symm

theorem State.Outbox.step {s t : State} {e : Event} (h : s.Outbox) (hs : step s e = some t) :
    t.Outbox := by
  cases step_effect hs with
  | ticked now hle => exact OutboxInv.tick h hle
  | created request version invocationId dispatchId queuedAt db hq hi =>
    obtain ⟨_, dispatches, -, hd, rfl⟩ := insertInvocation_ok hi
    exact OutboxInv.insert h rfl hd
  | selected limit =>
    exact (OutboxInv.select h).perm (List.perm_append_singleton _ _).symm
  | published b d todo done outcome hb =>
    obtain ⟨hlt, -⟩ := List.getElem?_eq_some_iff.mp hb
    exact ((OutboxInv.perm h (perm_of_getElem? hb)).turn
      (publishDispatch_turn s.db d outcome _ s.clock)).perm
        (List.set_perm_cons_eraseIdx hlt _).symm
  | committed b done hb => exact (OutboxInv.perm h (perm_of_getElem? hb)).commit
  | rolledBack b batch hb => exact (OutboxInv.perm h (perm_of_getElem? hb)).rollback
  | registered => exact h
  | worked n p e u p' hp hw =>
    obtain ⟨hb, hc, hr, ha, he, hd⟩ := hw.outboxFrame
    have hg : OutboxInv s.db.dispatches u.group s.batches s.clock s.rolledBack s.addedOnFailure :=
      OutboxInv.congr h he
    unfold State.Outbox
    show OutboxInv u.db.dispatches u.group u.batches u.clock u.rolledBack u.addedOnFailure
    rw [hb, hc, hr, ha]
    rcases hd with hd | ⟨d, hnone, hi⟩
    · rw [hd]
      exact hg
    · exact hg.insert hnone hi

theorem outbox_reachable {s : State} (h : Reachable step init s) : s.Outbox := by
  refine h.invariant (fun s hs => ?_) fun _ hi hs => hi.step hs
  obtain ⟨⟨functions, versions, hdb⟩, hg, hb, -, -, -⟩ := hs
  unfold State.Outbox
  rw [hdb, hg, hb]
  refine ⟨List.nodup_nil, by simp, by simp, ?_, ?_, by simp, ?_⟩
  · intro e he
    cases he
  · intro row hrow
    exact absurd hrow (Table.not_mem_empty row)
  · intro row hrow
    exact absurd hrow (Table.not_mem_empty row)

/-- A published row is locked by no batch. -/
theorem OutboxInv.not_locked {t : DispatchTable} {g : Group} {batches : List Batch} {clock : Time}
    {rolledBack added : List UUID} (h : OutboxInv t g batches clock rolledBack added)
    {row : InvocationDispatch} (hrow : row ∈ t) (hp : row.publishedAt ≠ none) {b : Batch}
    (hb : b ∈ batches) {d : InvocationDispatch} (hd : d ∈ b.done ++ b.todo) : d.id ≠ row.id := by
  intro he
  obtain ⟨row', hrow', hs, hnone, -⟩ := h.rows b hb d hd
  obtain rfl : row' = row := Table.eq_of_key hrow' hrow (hs.1.trans he)
  exact hp hnone

/-- A published row counts as published or is being published, never both. -/
theorem OutboxInv.count_le_one {t : DispatchTable} {g : Group} {batches : List Batch}
    {clock : Time} {rolledBack added : List UUID}
    (h : OutboxInv t g batches clock rolledBack added) {row : InvocationDispatch} (hrow : row ∈ t) :
    publishedFlag row + (batches.flatMap Batch.published).count row.id ≤ 1 := by
  have hsub : (batches.flatMap Batch.published).Sublist (batches.flatMap Batch.ids) :=
    List.Sublist.flatMap_right _ fun b _ =>
      ((List.filter_sublist.map _).trans ((List.sublist_append_left _ _).map _))
  have hle := List.nodup_iff_count_le_one.mp (h.locked.sublist hsub) row.id
  by_cases hp : row.publishedAt = none
  · simpa [publishedFlag, hp] using hle
  · have hzero : (batches.flatMap Batch.published).count row.id = 0 := by
      refine List.count_eq_zero.mpr fun hm => ?_
      obtain ⟨b, hb, hm⟩ := List.mem_flatMap.mp hm
      obtain ⟨d, hd, he⟩ := List.mem_map.mp hm
      exact h.not_locked hrow hp hb (List.mem_append_left _ (List.mem_of_mem_filter hd)) he
    rw [hzero, publishedFlag]
    split <;> omega

/-- The row stays as it is and no entry is added for it. -/
def Settled (s t : State) : Prop :=
  ∀ row ∈ s.db.dispatches, row.publishedAt ≠ none →
    row ∈ t.db.dispatches ∧ entriesOf t.group row = entriesOf s.group row

theorem settled_step {s t : State} {e : Event} (h : s.Outbox) (hs : step s e = some t) :
    Settled s t := by
  intro row hrow hp
  cases step_effect hs with
  | ticked | selected | rolledBack | registered => exact ⟨hrow, rfl⟩
  | created request version invocationId dispatchId queuedAt db hq hi =>
    obtain ⟨_, dispatches, -, hd, rfl⟩ := insertInvocation_ok hi
    exact ⟨(Table.mem_insert hd).mpr (Or.inl hrow), rfl⟩
  | published b d todo done outcome hb =>
    refine ⟨hrow, ?_⟩
    have hlocked := OutboxInv.not_locked h hrow hp (List.mem_of_getElem? hb) (d := d) (by simp)
    obtain ⟨row', hrow', hsame, -⟩ := h.rows _ (List.mem_of_getElem? hb) d (by simp)
    have hother : ∀ m : StreamMessage, m.invocationId = d.invocationId ∧
        m.attemptNumber = d.attemptNumber →
        entriesOf (s.group.add m s.clock) row = entriesOf s.group row := by
      intro m hm
      have hnot : carries ⟨m, s.clock⟩ row = false := by
        by_contra hc
        have hc' : carries ⟨m, s.clock⟩ row' = true := by
          simp [carries, hm, hsame.2.1, hsame.2.2]
        have heq := eq_of_carries hrow hrow' (by simpa using hc) hc'
        exact hlocked (heq ▸ hsame.1.symm)
      show List.countP (carries · row)
        (s.group.entries ++ [(⟨m, s.clock⟩ : Entry StreamMessage)]) = _
      rw [List.countP_append, List.countP_singleton, hnot]
      rfl
    show entriesOf (addMessage s.group _ s.clock) row = _
    have hturn := publishDispatch_turn s.db d outcome (s.group.entries.length + 1) s.clock
    generalize publishDispatch s.db d outcome (s.group.entries.length + 1) s.clock = turn at hturn
    obtain ⟨o, m⟩ := turn
    cases hturn with
    | silent => rfl
    | returned o m hs hp hid hm => exact hother m hm
    | added o m hs hp hm => exact hother m hm
  | committed b done hb =>
    refine ⟨?_, rfl⟩
    have hfree : ∀ o ∈ done, o.id ≠ row.id := fun o ho =>
      OutboxInv.not_locked h hrow hp (List.mem_of_getElem? hb) (by simpa using ho)
    exact Table.get_mem ((Table.get_flush_of_not_listed (by exact fun _ _ => ⟨rfl, rfl⟩)
      hfree).trans (Table.get_of_mem hrow))
  | worked n p e u p' hn hw =>
    obtain ⟨-, -, -, -, he, hd⟩ := hw.outboxFrame
    refine ⟨?_, by rw [entriesOf, entriesOf]; exact congrArg _ he⟩
    rcases hd with hd | ⟨d, -, hi⟩
    · exact hd ▸ hrow
    · exact (Table.mem_insert hi).mpr (Or.inl hrow)

/-- What the outbox promises about a state. -/
structure Publication (s : State) : Prop where
  /-- Every entry carries the pair of a committed row and was added when the row was due. -/
  carried : ∀ e ∈ s.group.entries, ∃ row ∈ s.db.dispatches,
    row.invocationId = e.fields.invocationId ∧ row.attemptNumber = e.fields.attemptNumber ∧
      row.availableAt ≤ e.addedAt
  /-- Every published row has its entry, under the id it names. -/
  recorded : ∀ row ∈ s.db.dispatches, row.publishedAt ≠ none → ∃ id e,
    row.publishedMessageId = some id ∧ s.group.entry id = some e ∧
      e.fields.invocationId = row.invocationId ∧ e.fields.attemptNumber = row.attemptNumber
  /-- Duplicates are paid for by rollbacks and by failures after the entry was added. -/
  bounded : ∀ row ∈ s.db.dispatches, entriesOf s.group row ≤
    1 + s.rolledBack.count row.id + s.addedOnFailure.count row.id
  /-- A batch only ever publishes rows that are not published. -/
  unpublished : ∀ (b : Nat) (d : InvocationDispatch) (todo done : List InvocationDispatch),
    s.batches[b]? = some ⟨d :: todo, done⟩ → ∀ row ∈ s.db.dispatches, row.id = d.id → row.publishedAt = none
  /-- Once a row is published, no further entry is added for it. -/
  settled : ∀ t, Steps step (fun _ _ => True) s t → Settled s t

/-- **Outbox publication is at-least-once and duplicates only on rollback or failure.** -/
theorem outbox_publication {s : State} (h : Reachable step init s) : Publication s := by
  have hi := outbox_reachable h
  refine ⟨fun e he => ?_, fun row hrow hp => ?_, fun row hrow => ?_,
    fun b d todo done hb row hrow he => ?_, fun t ht => ?_⟩
  · obtain ⟨row, hrow, hc, ha⟩ := hi.carried e he
    simp only [carries, decide_eq_true_eq] at hc
    exact ⟨row, hrow, hc.1.symm, hc.2.symm, ha⟩
  · obtain ⟨id, e, hid, he, hc⟩ := hi.recorded row hrow hp
    simp only [carries, decide_eq_true_eq] at hc
    exact ⟨id, e, hid, he, hc⟩
  · have hcount := hi.count row hrow
    have hone := OutboxInv.count_le_one hi hrow
    omega
  · by_contra hp
    exact OutboxInv.not_locked hi hrow hp (List.mem_of_getElem? hb) (d := d) (by simp) he.symm
  · refine Steps.relation (R := Settled) (fun _ row hrow _ => ⟨hrow, rfl⟩) ?_ ?_ h ht
    · intro s t u h₁ h₂ row hrow hp
      obtain ⟨hrow', he'⟩ := h₁ row hrow hp
      obtain ⟨hrow'', he''⟩ := h₂ row hrow' hp
      exact ⟨hrow'', he''.trans he'⟩
    · intro s e t hr _ hs
      exact settled_step (outbox_reachable hr) hs

/-- One row is published, the batch is rolled back, and the row is published again. -/
def publishedTwice : List Event :=
  [.createInvocation { ownerId := 7, functionName := "hello", payload := .null } (helloVersion 30) 3 4 0,
    .select 100, .publish 0 .returned, .rollback 0, .tick (seconds 1),
    .select 100, .publish 0 .returned, .commit 0]

/-- The second entry of the row in `publishedTwice` is paid for by the rollback. -/
theorem outbox_publication_publishedTwice : ∃ s, Reachable step init s ∧
    ∃ row ∈ s.db.dispatches, row.publishedAt ≠ none ∧ entriesOf s.group row = 2 ∧
      entriesOf s.group row ≤ 1 + s.rolledBack.count row.id + s.addedOnFailure.count row.id := by
  obtain ⟨s, hs, hp⟩ := reachable_of_replay step publishedTwice
    (fun s => s.db.dispatches.rows.any fun row =>
      row.publishedAt ≠ none ∧ entriesOf s.group row = 2) init_empty (by decide)
  simp only [List.any_eq_true, decide_eq_true_eq] at hp
  obtain ⟨row, hrow, hpub, htwo⟩ := hp
  exact ⟨s, hs, row, hrow, hpub, htwo, (outbox_publication hs).bounded row hrow⟩

end Serverless.Cluster
