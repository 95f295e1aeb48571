import Mathlib.Data.List.Nodup
import Mathlib.Data.List.Range

/-!
# A stream with one consumer group

A stream is an append-only list of entries; the id of an entry is its position,
counted from 1, and `0` stands for the id before all entries. The group remembers the
last id it has delivered and its pending list: what has been delivered to some
consumer and not been acknowledged. Reading moves the next entries to the reader's
pending list, claiming moves a pending entry to the claimer whoever holds it, and
acknowledging removes it whoever holds it.
-/
namespace Serverless.Library

universe u v

structure Entry (φ : Type u) where
  fields : φ
  addedAt : Int

structure Pending (γ : Type v) where
  id : Nat
  consumer : γ
  deliveredAt : Int
  deriving DecidableEq

/-- The pending list holds delivered ids only, each once. -/
structure ConsumerGroup (φ : Type u) (γ : Type v) where
  entries : List (Entry φ)
  delivered : Nat
  pending : List (Pending γ)
  delivered_le : delivered ≤ entries.length
  pending_le : ∀ p ∈ pending, 1 ≤ p.id ∧ p.id ≤ delivered
  pending_nodup : (pending.map (·.id)).Nodup

namespace ConsumerGroup

variable {φ : Type u} {γ : Type v}

def empty : ConsumerGroup φ γ := ⟨[], 0, [], Nat.le_refl 0, by simp, List.nodup_nil⟩

/-- The entry with an id. -/
def entry (g : ConsumerGroup φ γ) : Nat → Option (Entry φ)
  | 0 => none
  | k + 1 => g.entries[k]?

/-- The entry exists and has not been acknowledged: it waits for its first delivery or is
pending. -/
def Unacked (g : ConsumerGroup φ γ) (id : Nat) : Prop :=
  (g.entry id).isSome = true ∧ (g.delivered < id ∨ id ∈ g.pending.map (·.id))

theorem entry_eq_some {g : ConsumerGroup φ γ} {id : Nat} {e : Entry φ} (h : g.entry id = some e) :
    1 ≤ id ∧ id ≤ g.entries.length ∧ e ∈ g.entries := by
  cases id with
  | zero => cases h
  | succ k =>
    obtain ⟨hlt, he⟩ := List.getElem?_eq_some_iff.mp h
    exact ⟨by omega, by omega, he ▸ List.getElem_mem hlt⟩

theorem exists_entry {g : ConsumerGroup φ γ} {id : Nat} (h₁ : 1 ≤ id) (h₂ : id ≤ g.entries.length) :
    ∃ e, g.entry id = some e := by
  obtain ⟨k, rfl⟩ : ∃ k, id = k + 1 := ⟨id - 1, by omega⟩
  exact ⟨g.entries[k], List.getElem?_eq_getElem (by omega)⟩

/-- A pending entry is unacknowledged. -/
theorem unacked_of_pending {g : ConsumerGroup φ γ} {id : Nat} (h : id ∈ g.pending.map (·.id)) :
    g.Unacked id := by
  obtain ⟨p, hp, rfl⟩ := List.mem_map.mp h
  obtain ⟨h₁, h₂⟩ := g.pending_le p hp
  obtain ⟨e, he⟩ := exists_entry h₁ (h₂.trans g.delivered_le)
  exact ⟨by rw [he]; rfl, Or.inr h⟩

/-! ## Adding -/

/-- `XADD`. The new entry's id is `g.entries.length + 1`. -/
def add (g : ConsumerGroup φ γ) (fields : φ) (now : Int) : ConsumerGroup φ γ where
  entries := g.entries ++ [⟨fields, now⟩]
  delivered := g.delivered
  pending := g.pending
  delivered_le := by
    rw [List.length_append]
    exact g.delivered_le.trans (Nat.le_add_right _ _)
  pending_le := g.pending_le
  pending_nodup := g.pending_nodup

theorem entry_add (g : ConsumerGroup φ γ) (fields : φ) (now : Int) (id : Nat) :
    (g.add fields now).entry id =
      if id = g.entries.length + 1 then some ⟨fields, now⟩ else g.entry id := by
  cases id with
  | zero => rw [if_neg (by omega)]; rfl
  | succ k =>
    simp only [entry, add, List.getElem?_append, Nat.add_right_cancel_iff]
    by_cases hk : k = g.entries.length
    · simp [hk]
    · rw [if_neg hk]
      split
      · rfl
      · rw [List.getElem?_eq_none (by simp; omega), List.getElem?_eq_none (by omega)]

theorem unacked_add {g : ConsumerGroup φ γ} {fields : φ} {now : Int} {id : Nat}
    (h : g.Unacked id) : (g.add fields now).Unacked id := by
  refine ⟨?_, h.2⟩
  rw [entry_add]
  split
  · rfl
  · exact h.1

/-! ## Reading -/

section Read

variable (g : ConsumerGroup φ γ) (consumer : γ) (count : Nat) (now : Int)

/-- The ids that a read of `count` entries delivers. -/
def nextIds (g : ConsumerGroup φ γ) (count : Nat) : List Nat :=
  List.range' (g.delivered + 1) (min count (g.entries.length - g.delivered))

theorem mem_nextIds {g : ConsumerGroup φ γ} {count id : Nat} :
    id ∈ g.nextIds count ↔
      g.delivered < id ∧ id ≤ g.delivered + min count (g.entries.length - g.delivered) := by
  unfold nextIds
  rw [List.mem_range'_1]
  omega

/-- `XREADGROUP` with id `>`. -/
def read : ConsumerGroup φ γ where
  entries := g.entries
  delivered := g.delivered + min count (g.entries.length - g.delivered)
  pending := g.pending ++ (g.nextIds count).map fun id => ⟨id, consumer, now⟩
  delivered_le := by
    have := g.delivered_le
    omega
  pending_le := by
    intro p hp
    rcases List.mem_append.mp hp with hp | hp
    · have := g.pending_le p hp
      omega
    · obtain ⟨id, hid, rfl⟩ := List.mem_map.mp hp
      obtain ⟨h₁, h₂⟩ := mem_nextIds.mp hid
      exact ⟨by change 1 ≤ id; omega, h₂⟩
  pending_nodup := by
    rw [List.map_append, List.map_map]
    refine List.nodup_append'.mpr ⟨g.pending_nodup, ?_, fun id hid hid' => ?_⟩
    · exact List.Nodup.map (fun _ _ h => h) List.nodup_range'
    · obtain ⟨p, hp, rfl⟩ := List.mem_map.mp hid
      obtain ⟨id, hid, he⟩ := List.mem_map.mp hid'
      have h₁ := (g.pending_le p hp).2
      have h₂ := (mem_nextIds.mp hid).1
      change id = p.id at he
      omega

theorem entry_read (id : Nat) : (g.read consumer count now).entry id = g.entry id := by
  cases id <;> rfl

theorem unacked_read {id : Nat} : (g.read consumer count now).Unacked id ↔ g.Unacked id := by
  have hmem : id ∈ (g.read consumer count now).pending.map (·.id) ↔
      id ∈ g.pending.map (·.id) ∨ id ∈ g.nextIds count := by
    simp [read, List.mem_append]
  unfold Unacked
  rw [entry_read, hmem, mem_nextIds]
  show _ ∧ (g.delivered + min count (g.entries.length - g.delivered) < id ∨ _) ↔ _
  refine and_congr_right fun he => ⟨?_, ?_⟩
  · rintro (h | h | h)
    · exact Or.inl (by omega)
    · exact Or.inr h
    · exact Or.inl h.1
  · rintro (h | h)
    · by_cases hle : id ≤ g.delivered + min count (g.entries.length - g.delivered)
      · exact Or.inr (Or.inr ⟨h, hle⟩)
      · exact Or.inl (by omega)
    · exact Or.inr (Or.inl h)

end Read

/-! ## Acknowledging -/

/-- `XACK`. -/
def ack (g : ConsumerGroup φ γ) (id : Nat) : ConsumerGroup φ γ where
  entries := g.entries
  delivered := g.delivered
  pending := g.pending.filter fun p => p.id ≠ id
  delivered_le := g.delivered_le
  pending_le := fun p hp => g.pending_le p (List.mem_of_mem_filter hp)
  pending_nodup := g.pending_nodup.sublist (List.filter_sublist.map _)

theorem entry_ack (g : ConsumerGroup φ γ) (id id' : Nat) : (g.ack id).entry id' = g.entry id' := by
  cases id' <;> rfl

theorem mem_pending_ack {g : ConsumerGroup φ γ} {id id' : Nat} :
    id' ∈ (g.ack id).pending.map (·.id) ↔ id' ∈ g.pending.map (·.id) ∧ id' ≠ id := by
  simp only [ack, List.mem_map, List.mem_filter, decide_eq_true_eq]
  constructor
  · rintro ⟨p, ⟨hp, hne⟩, rfl⟩
    exact ⟨⟨p, hp, rfl⟩, hne⟩
  · rintro ⟨⟨p, hp, rfl⟩, hne⟩
    exact ⟨p, ⟨hp, hne⟩, rfl⟩

theorem unacked_ack {g : ConsumerGroup φ γ} {id id' : Nat} (h : g.Unacked id') (hne : id' ≠ id) :
    (g.ack id).Unacked id' := by
  refine ⟨by rw [entry_ack]; exact h.1, ?_⟩
  exact h.2.imp_right fun hp => mem_pending_ack.mpr ⟨hp, hne⟩

/-! ## Claiming -/

section Claim

/-- A minimum idle time of 0 is no restriction. -/
def idleEnough (minIdle now : Int) (p : Pending γ) : Bool :=
  minIdle = 0 ∨ minIdle ≤ now - p.deliveredAt

/-- `XPENDING` of one consumer. -/
def pendingOf [DecidableEq γ] (g : ConsumerGroup φ γ) (consumer : γ) (minIdle : Int) (count : Nat)
    (now : Int) : List Nat :=
  ((g.pending.filter fun p => p.consumer = consumer ∧ idleEnough minIdle now p).map (·.id)).take
    count

theorem pendingOf_nodup [DecidableEq γ] (g : ConsumerGroup φ γ) (consumer : γ) (minIdle : Int)
    (count : Nat) (now : Int) : (g.pendingOf consumer minIdle count now).Nodup :=
  (g.pending_nodup.sublist (List.filter_sublist.map _)).sublist (List.take_sublist _ _)

variable (g : ConsumerGroup φ γ) (consumer : γ) (minIdle : Int) (ids : List Nat) (now : Int)

/-- Whether a claim moves a pending entry. -/
def claims (p : Pending γ) : Bool := p.id ∈ ids ∧ idleEnough minIdle now p

/-- The ids that a claim hands out, in the order asked for. -/
def claimedIds : List Nat :=
  ids.filter fun id => g.pending.any fun p => p.id = id && idleEnough minIdle now p

/-- What a claim makes of a pending entry. -/
def reassign (p : Pending γ) : Pending γ :=
  if claims minIdle ids now p then { p with consumer := consumer, deliveredAt := now } else p

@[simp] theorem reassign_id (p : Pending γ) : (reassign consumer minIdle ids now p).id = p.id := by
  unfold reassign
  split <;> rfl

theorem map_reassign_id (l : List (Pending γ)) :
    (l.map (reassign consumer minIdle ids now)).map (·.id) = l.map (·.id) := by
  rw [List.map_map]
  exact List.map_congr_left fun p _ => reassign_id consumer minIdle ids now p

/-- `XCLAIM`. Ids that are not pending are passed over. -/
def claim : ConsumerGroup φ γ where
  entries := g.entries
  delivered := g.delivered
  pending := g.pending.map (reassign consumer minIdle ids now)
  delivered_le := g.delivered_le
  pending_le := by
    intro p hp
    obtain ⟨q, hq, rfl⟩ := List.mem_map.mp hp
    rw [reassign_id]
    exact g.pending_le q hq
  pending_nodup := by
    rw [map_reassign_id]
    exact g.pending_nodup

theorem claim_pending_ids :
    (g.claim consumer minIdle ids now).pending.map (·.id) = g.pending.map (·.id) :=
  map_reassign_id consumer minIdle ids now g.pending

theorem entry_claim (id : Nat) : (g.claim consumer minIdle ids now).entry id = g.entry id := by
  cases id <;> rfl

theorem unacked_claim {id : Nat} :
    (g.claim consumer minIdle ids now).Unacked id ↔ g.Unacked id := by
  unfold Unacked
  rw [entry_claim, claim_pending_ids]
  rfl

theorem mem_claimedIds {id : Nat} (h : id ∈ g.claimedIds minIdle ids now) :
    id ∈ ids ∧ id ∈ g.pending.map (·.id) := by
  obtain ⟨hid, hp⟩ := List.mem_filter.mp h
  simp only [List.any_eq_true, Bool.and_eq_true, decide_eq_true_eq] at hp
  obtain ⟨p, hp, he, -⟩ := hp
  exact ⟨hid, List.mem_map.mpr ⟨p, hp, he⟩⟩

end Claim

/-! ## What one consumer holds -/

section Held

variable [DecidableEq γ] (g : ConsumerGroup φ γ)

/-- The ids pending at a consumer. -/
def heldBy (consumer : γ) : List Nat :=
  (g.pending.filter fun p => p.consumer = consumer).map (·.id)

/-- The ids pending at any of some consumers. -/
def heldByAny (consumers : List γ) : List Nat := consumers.flatMap g.heldBy

variable {g}

theorem mem_heldBy {consumer : γ} {id : Nat} :
    id ∈ g.heldBy consumer ↔ ∃ p ∈ g.pending, p.consumer = consumer ∧ p.id = id := by
  simp [heldBy, and_assoc]

theorem heldBy_nodup (consumer : γ) : (g.heldBy consumer).Nodup :=
  g.pending_nodup.sublist (List.filter_sublist.map _)

theorem mem_pending_of_mem_heldBy {consumer : γ} {id : Nat} (h : id ∈ g.heldBy consumer) :
    id ∈ g.pending.map (·.id) := by
  obtain ⟨p, hp, -, rfl⟩ := mem_heldBy.mp h
  exact List.mem_map_of_mem hp

/-- An id has one holder. -/
theorem heldBy_disjoint {c c' : γ} (hne : c ≠ c') : (g.heldBy c).Disjoint (g.heldBy c') := by
  intro id h h'
  obtain ⟨p, hp, rfl, hid⟩ := mem_heldBy.mp h
  obtain ⟨q, hq, rfl, hid'⟩ := mem_heldBy.mp h'
  rw [List.inj_on_of_nodup_map g.pending_nodup hp hq (hid.trans hid'.symm)] at hne
  exact hne rfl

theorem heldByAny_nodup {consumers : List γ} (h : consumers.Nodup) :
    (g.heldByAny consumers).Nodup := by
  refine List.nodup_flatMap.mpr ⟨fun c _ => heldBy_nodup c, ?_⟩
  exact h.imp heldBy_disjoint

theorem heldByAny_congr {g' : ConsumerGroup φ γ} {consumers : List γ}
    (h : ∀ c ∈ consumers, g'.heldBy c = g.heldBy c) :
    g'.heldByAny consumers = g.heldByAny consumers :=
  List.flatMap_congr h

theorem heldByAny_eq_nil {consumers : List γ} :
    g.heldByAny consumers = [] ↔ ∀ c ∈ consumers, g.heldBy c = [] := by
  simp [heldByAny]

/-- With no minimum idle time `XPENDING` lists the first entries of the consumer. -/
theorem pendingOf_zero (consumer : γ) (count : Nat) (now : Int) :
    g.pendingOf consumer 0 count now = (g.heldBy consumer).take count := by
  simp [pendingOf, heldBy, idleEnough]

omit [DecidableEq γ] in
/-- With no minimum idle time `XCLAIM` hands out every pending id it is asked for. -/
theorem claimedIds_zero {ids : List Nat} (h : ∀ id ∈ ids, id ∈ g.pending.map (·.id)) (now : Int) :
    g.claimedIds 0 ids now = ids := by
  apply List.filter_eq_self.mpr
  intro id hid
  obtain ⟨p, hp, rfl⟩ := List.mem_map.mp (h id hid)
  exact List.any_eq_true.mpr ⟨p, hp, by simp [idleEnough]⟩

theorem heldBy_ack {consumer : γ} {id : Nat} (h : id ∉ g.heldBy consumer) :
    (g.ack id).heldBy consumer = g.heldBy consumer := by
  simp only [heldBy, ack, List.filter_filter]
  congr 1
  apply List.filter_congr
  intro p hp
  by_cases hc : p.consumer = consumer
  · have hne : p.id ≠ id := fun hid => h (mem_heldBy.mpr ⟨p, hp, hc, hid⟩)
    simp [hc, hne]
  · simp [hc]

/-- A claim takes the claimed ids from every other consumer. -/
theorem heldBy_claim {me consumer : γ} (hne : consumer ≠ me) (ids : List Nat) (now : Int) :
    (g.claim me 0 ids now).heldBy consumer = (g.heldBy consumer).filter fun id => id ∉ ids := by
  simp only [heldBy, claim, List.filter_map, List.map_map, List.filter_filter]
  have hkeep : ∀ p : Pending γ, ((reassign me 0 ids now p).consumer = consumer) ↔
      p.id ∉ ids ∧ p.consumer = consumer := by
    intro p
    by_cases hid : p.id ∈ ids
    · simp [reassign, claims, idleEnough, hid, Ne.symm hne]
    · simp [reassign, claims, hid]
  have hfilter : (fun p : Pending γ => decide ((reassign me 0 ids now p).consumer = consumer)) =
      fun p => decide (p.id ∉ ids) && decide (p.consumer = consumer) := by
    funext p
    simp [hkeep p]
  simp only [Function.comp_def, reassign_id, hfilter]

theorem filter_notMem_left {l r : List Nat} (h : l.Disjoint r) :
    ((l ++ r).filter fun id => id ∉ l) = r := by
  rw [List.filter_append, List.filter_eq_nil_iff.mpr (by simp), List.nil_append]
  apply List.filter_eq_self.mpr
  intro id hid
  simpa using fun hl => h hl hid

/-- The consumer whose first ids are claimed keeps the others. -/
theorem heldBy_claim_take {me consumer : γ} (hne : consumer ≠ me) (count : Nat) (now : Int) :
    (g.claim me 0 ((g.heldBy consumer).take count) now).heldBy consumer =
      (g.heldBy consumer).drop count := by
  rw [heldBy_claim hne]
  have hnd := heldBy_nodup (g := g) consumer
  generalize g.heldBy consumer = l at hnd
  rw [← List.take_append_drop count l] at hnd
  obtain ⟨-, -, hdis⟩ := List.nodup_append'.mp hnd
  have h := filter_notMem_left hdis
  rwa [List.take_append_drop] at h

/-- A third consumer keeps everything. -/
theorem heldBy_claim_other {me consumer c : γ} (hne : c ≠ me) (hc : c ≠ consumer) (count : Nat)
    (now : Int) :
    (g.claim me 0 ((g.heldBy consumer).take count) now).heldBy c = g.heldBy c := by
  rw [heldBy_claim hne]
  apply List.filter_eq_self.mpr
  intro id hid
  simp only [decide_eq_true_eq]
  exact fun ht => heldBy_disjoint hc hid (List.mem_of_mem_take ht)

/-- Claiming the first ids of one of the consumers: they have been held before, and the rest is
held still. -/
theorem heldByAny_claim {me consumer : γ} {consumers : List γ} (hn : consumers.Nodup)
    (hmem : consumer ∈ consumers) (hme : me ∉ consumers) (count : Nat) (now : Int) :
    (g.heldByAny consumers).Perm ((g.heldBy consumer).take count ++
      (g.claim me 0 ((g.heldBy consumer).take count) now).heldByAny consumers) := by
  obtain ⟨before, after, rfl⟩ := List.append_of_mem hmem
  have hnotin : consumer ∉ before ++ after := (List.nodup_cons.mp (List.nodup_middle.mp hn)).1
  have hother : ∀ c ∈ before ++ after,
      (g.claim me 0 ((g.heldBy consumer).take count) now).heldBy c = g.heldBy c := by
    intro c hc
    have hsub : c ∈ before ++ consumer :: after := by
      rw [List.mem_append] at hc ⊢
      exact hc.imp_right (List.mem_cons_of_mem _)
    have hcme : c ≠ me := fun h => hme (h ▸ hsub)
    have hne : c ≠ consumer := fun h => hnotin (h ▸ hc)
    exact heldBy_claim_other hcme hne count now
  have hme' : consumer ≠ me := fun h => hme (h ▸ hmem)
  have hb := List.flatMap_congr fun c hc => hother c (List.mem_append_left after hc)
  have ha := List.flatMap_congr fun c hc => hother c (List.mem_append_right before hc)
  simp only [heldByAny, List.flatMap_append, List.flatMap_cons, hb, ha, heldBy_claim_take hme']
  nth_rewrite 1 [← List.take_append_drop count (g.heldBy consumer)]
  rw [List.append_assoc]
  exact List.perm_append_comm_assoc _ _ _

end Held

/-- The scan of `XAUTOCLAIM` over the pending list from its start id on: `attempts` bounds the
entries looked at, `count` the entries taken. It yields the ids to take and the id to go on
from, `0` at the end of the list. -/
def autoScan (minIdle now : Int) : Nat → Nat → List (Pending γ) → List Nat × Nat
  | _, _, [] => ([], 0)
  | 0, _, p :: _ => ([], p.id)
  | _ + 1, 0, p :: _ => ([], p.id)
  | attempts + 1, count + 1, p :: rest =>
    if idleEnough minIdle now p then
      let (ids, next) := autoScan minIdle now attempts count rest
      (p.id :: ids, next)
    else autoScan minIdle now attempts (count + 1) rest

theorem autoScan_sublist (minIdle now : Int) (attempts count : Nat) (l : List (Pending γ)) :
    (autoScan minIdle now attempts count l).1.Sublist (l.map (·.id)) := by
  induction l generalizing attempts count with
  | nil => simp [autoScan]
  | cons p rest ih =>
    cases attempts with
    | zero => simp [autoScan]
    | succ attempts =>
      cases count with
      | zero => simp [autoScan]
      | succ count =>
        simp only [autoScan, List.map_cons]
        split
        · exact (ih attempts count).cons_cons p.id
        · exact (ih attempts (count + 1)).cons p.id

theorem mem_autoScan {minIdle now : Int} {attempts count id : Nat} {l : List (Pending γ)}
    (h : id ∈ (autoScan minIdle now attempts count l).1) :
    ∃ p ∈ l, p.id = id ∧ idleEnough minIdle now p = true := by
  induction l generalizing attempts count with
  | nil => simp [autoScan] at h
  | cons p rest ih =>
    cases attempts with
    | zero => simp [autoScan] at h
    | succ attempts =>
      cases count with
      | zero => simp [autoScan] at h
      | succ count =>
        simp only [autoScan] at h
        split at h
        · rename_i hidle
          rcases List.mem_cons.mp h with rfl | h
          · exact ⟨p, List.mem_cons_self, rfl, hidle⟩
          · obtain ⟨q, hq, hqid⟩ := ih h
            exact ⟨q, List.mem_cons_of_mem p hq, hqid⟩
        · obtain ⟨q, hq, hqid⟩ := ih h
          exact ⟨q, List.mem_cons_of_mem p hq, hqid⟩

/-- Which ids `XAUTOCLAIM` takes, and its next start id. -/
def autoClaimIds (g : ConsumerGroup φ γ) (minIdle : Int) (start count : Nat) (now : Int) :
    List Nat × Nat :=
  autoScan minIdle now (10 * count) count (g.pending.filter fun p => start ≤ p.id)

section AutoClaim

variable {g : ConsumerGroup φ γ} {minIdle : Int} {start count : Nat} {now : Int} {ids : List Nat}
  {next : Nat}

theorem autoClaimIds_nodup (h : g.autoClaimIds minIdle start count now = (ids, next)) :
    ids.Nodup := by
  have hsub := autoScan_sublist minIdle now (10 * count) count
    (g.pending.filter fun p => start ≤ p.id)
  change (g.autoClaimIds minIdle start count now).1.Sublist _ at hsub
  rw [h] at hsub
  exact (g.pending_nodup.sublist (List.filter_sublist.map _)).sublist hsub

/-- `XAUTOCLAIM` takes pending entries that are idle enough. -/
theorem mem_autoClaimIds (h : g.autoClaimIds minIdle start count now = (ids, next)) {id : Nat}
    (hid : id ∈ ids) : ∃ p ∈ g.pending, p.id = id ∧ idleEnough minIdle now p = true := by
  have hm : id ∈ (g.autoClaimIds minIdle start count now).1 := by
    rw [h]
    exact hid
  obtain ⟨p, hp, hpid⟩ := mem_autoScan hm
  exact ⟨p, List.mem_of_mem_filter hp, hpid⟩

end AutoClaim

end ConsumerGroup

end Serverless.Library
