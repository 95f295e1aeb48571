import Mathlib.Algebra.Order.Ring.Nat
import Mathlib.Data.List.Nodup

/-!
# Tables with a primary key and a unique index

A table is a list of rows that carries its two constraints: no primary key occurs
twice, and no value of the unique index occurs twice. The index may be partial: a
row whose index value is `none` (a null column) never collides. Inserts are checked
and updates go by primary key and cannot touch indexed columns, so no operation
can build a table that breaks its constraints.
-/
namespace Serverless.Library

universe u v w

structure Table {α : Type u} {κ : Type v} {υ : Type w} (key : α → κ) (uniq : α → Option υ) where
  rows : List α
  primary : (rows.map key).Nodup
  unique : (rows.filterMap uniq).Nodup

/-- Which constraint rejected an insert. -/
inductive Violation where
  | primaryKey
  | uniqueIndex
  deriving DecidableEq, Repr

namespace Table

variable {α : Type u} {κ : Type v} {υ : Type w} {key : α → κ} {uniq : α → Option υ}

instance : Membership α (Table key uniq) := ⟨fun t r => r ∈ t.rows⟩

theorem mem_rows {t : Table key uniq} {r : α} : r ∈ t.rows ↔ r ∈ t := Iff.rfl

/-- The table without rows. -/
def empty : Table key uniq := ⟨[], List.nodup_nil, List.nodup_nil⟩

@[simp] theorem not_mem_empty (r : α) : r ∉ (empty : Table key uniq) := List.not_mem_nil

theorem eq_of_key {t : Table key uniq} {r r' : α} (h : r ∈ t) (h' : r' ∈ t)
    (hk : key r = key r') : r = r' :=
  List.inj_on_of_nodup_map t.primary h h' hk

private theorem eq_of_filterMap_nodup {l : List α} (hn : (l.filterMap uniq).Nodup) {r r' : α}
    (h : r ∈ l) (h' : r' ∈ l) {x : υ} (hx : uniq r = some x) (hx' : uniq r' = some x) :
    r = r' := by
  induction l with
  | nil => cases h
  | cons a l ih =>
    rcases List.mem_cons.mp h with rfl | hl
    · rcases List.mem_cons.mp h' with rfl | hl'
      · rfl
      · rw [List.filterMap_cons_some hx, List.nodup_cons] at hn
        exact absurd (List.mem_filterMap.mpr ⟨r', hl', hx'⟩) hn.1
    · rcases List.mem_cons.mp h' with rfl | hl'
      · rw [List.filterMap_cons_some hx', List.nodup_cons] at hn
        exact absurd (List.mem_filterMap.mpr ⟨r, hl, hx⟩) hn.1
      · have htail : (l.filterMap uniq).Nodup :=
          hn.sublist ((List.sublist_cons_self a l).filterMap uniq)
        exact ih htail hl hl'

/-- Two rows with the same index value are the same row. -/
theorem eq_of_uniq {t : Table key uniq} {r r' : α} (h : r ∈ t) (h' : r' ∈ t) {x : υ}
    (hx : uniq r = some x) (hx' : uniq r' = some x) : r = r' :=
  eq_of_filterMap_nodup t.unique h h' hx hx'

/-- Rewrite every row. Key and indexed columns stay. -/
def mapRows (t : Table key uniq) (g : α → α)
    (hg : ∀ r, key (g r) = key r ∧ uniq (g r) = uniq r) : Table key uniq where
  rows := t.rows.map g
  primary := by
    have h : (t.rows.map g).map key = t.rows.map key := by
      rw [List.map_map]
      exact List.map_congr_left fun r _ => (hg r).1
    rw [h]
    exact t.primary
  unique := by
    have h : (t.rows.map g).filterMap uniq = t.rows.filterMap uniq := by
      rw [List.filterMap_map]
      exact List.filterMap_congr fun r _ => (hg r).2
    rw [h]
    exact t.unique

theorem mem_mapRows {t : Table key uniq} {g : α → α}
    {hg : ∀ r, key (g r) = key r ∧ uniq (g r) = uniq r} {r : α} :
    r ∈ t.mapRows g hg ↔ ∃ r₀ ∈ t, g r₀ = r := List.mem_map

/-- The key and index columns of the rows, in table order. Updates never change them. -/
def index (t : Table key uniq) : List (κ × Option υ) := t.rows.map fun r => (key r, uniq r)

theorem mem_index {t : Table key uniq} {x : κ × Option υ} :
    x ∈ t.index ↔ ∃ r ∈ t, (key r, uniq r) = x := List.mem_map

@[simp] theorem index_mapRows (t : Table key uniq) (g : α → α)
    (hg : ∀ r, key (g r) = key r ∧ uniq (g r) = uniq r) : (t.mapRows g hg).index = t.index := by
  unfold index mapRows
  rw [List.map_map]
  exact List.map_congr_left fun r _ => Prod.ext (hg r).1 (hg r).2

section Update

variable [DecidableEq κ]

/-- Look a row up by primary key. -/
def get (t : Table key uniq) (k : κ) : Option α := t.rows.find? fun r => key r = k

theorem get_eq_some {t : Table key uniq} {k : κ} {r : α} :
    t.get k = some r ↔ r ∈ t ∧ key r = k := by
  constructor
  · intro h
    exact ⟨List.mem_of_find?_eq_some h, by simpa using List.find?_some h⟩
  · rintro ⟨hm, rfl⟩
    cases hg : t.get (key r) with
    | none =>
      have hn := List.find?_eq_none.mp hg r hm
      simp at hn
    | some r' =>
      have hm' : r' ∈ t := List.mem_of_find?_eq_some hg
      have hk' : key r' = key r := by simpa using List.find?_some hg
      rw [eq_of_key hm' hm hk']

theorem get_mem {t : Table key uniq} {k : κ} {r : α} (h : t.get k = some r) : r ∈ t :=
  (get_eq_some.mp h).1

theorem get_key {t : Table key uniq} {k : κ} {r : α} (h : t.get k = some r) : key r = k :=
  (get_eq_some.mp h).2

theorem get_of_mem {t : Table key uniq} {r : α} (h : r ∈ t) : t.get (key r) = some r :=
  get_eq_some.mpr ⟨h, rfl⟩

theorem get_eq_none {t : Table key uniq} {k : κ} : t.get k = none ↔ ∀ r ∈ t, key r ≠ k := by
  constructor
  · intro h r hr hk
    rw [get_eq_some.mpr ⟨hr, hk⟩] at h
    cases h
  · intro h
    cases hg : t.get k with
    | none => rfl
    | some r => exact absurd (get_key hg) (h r (get_mem hg))

theorem get_mapRows (t : Table key uniq) (g : α → α)
    (hg : ∀ r, key (g r) = key r ∧ uniq (g r) = uniq r) (k : κ) :
    (t.mapRows g hg).get k = (t.get k).map g := by
  cases h : t.get k with
  | none =>
    refine get_eq_none.mpr fun r hr => ?_
    obtain ⟨r₀, hr₀, rfl⟩ := mem_mapRows.mp hr
    rw [(hg r₀).1]
    exact get_eq_none.mp h r₀ hr₀
  | some r =>
    obtain ⟨hr, rfl⟩ := get_eq_some.mp h
    exact get_eq_some.mpr ⟨mem_mapRows.mpr ⟨r, hr, rfl⟩, (hg r).1⟩

/-- Update the row with primary key `k`. -/
def modify (t : Table key uniq) (k : κ) (f : α → α)
    (hf : ∀ r, key (f r) = key r ∧ uniq (f r) = uniq r) : Table key uniq :=
  t.mapRows (fun r => if key r = k then f r else r) fun r => by
    by_cases h : key r = k <;> simp [h, hf r]

@[simp] theorem index_modify (t : Table key uniq) (k : κ) (f : α → α)
    (hf : ∀ r, key (f r) = key r ∧ uniq (f r) = uniq r) : (t.modify k f hf).index = t.index :=
  index_mapRows _ _ _

theorem mem_modify {t : Table key uniq} {k : κ} {f : α → α}
    (hf : ∀ r, key (f r) = key r ∧ uniq (f r) = uniq r) {r : α} :
    r ∈ t.modify k f hf ↔ ∃ r₀ ∈ t, (if key r₀ = k then f r₀ else r₀) = r := mem_mapRows

theorem get_modify (t : Table key uniq) (k : κ) (f : α → α)
    (hf : ∀ r, key (f r) = key r ∧ uniq (f r) = uniq r) (k' : κ) :
    (t.modify k f hf).get k' = if k' = k then (t.get k').map f else t.get k' := by
  unfold modify
  rw [get_mapRows]
  cases h : t.get k' with
  | none => simp
  | some r => by_cases hk : k' = k <;> simp [hk, get_key h]

/-- After an update by key, a row is the updated one or an untouched one. -/
theorem mem_modify_cases {t : Table key uniq} {k : κ} {f : α → α}
    (hf : ∀ r, key (f r) = key r ∧ uniq (f r) = uniq r) {r₀ r : α} (h₀ : t.get k = some r₀)
    (h : r ∈ t.modify k f hf) : r = f r₀ ∨ r ∈ t ∧ key r ≠ k := by
  obtain ⟨r₁, hr₁, rfl⟩ := (mem_modify hf).mp h
  by_cases hk : key r₁ = k
  · rw [if_pos hk, eq_of_key hr₁ (get_mem h₀) (hk.trans (get_key h₀).symm)]
    exact Or.inl rfl
  · rw [if_neg hk]
    exact Or.inr ⟨hr₁, hk⟩

theorem mem_modify_self {t : Table key uniq} {k : κ} {f : α → α}
    (hf : ∀ r, key (f r) = key r ∧ uniq (f r) = uniq r) {r₀ : α} (h₀ : t.get k = some r₀) :
    f r₀ ∈ t.modify k f hf :=
  (mem_modify hf).mpr ⟨r₀, get_mem h₀, if_pos (get_key h₀)⟩

theorem mem_modify_of_ne {t : Table key uniq} {k : κ} {f : α → α}
    (hf : ∀ r, key (f r) = key r ∧ uniq (f r) = uniq r) {r : α} (h : r ∈ t) (hk : key r ≠ k) :
    r ∈ t.modify k f hf :=
  (mem_modify hf).mpr ⟨r, h, if_neg hk⟩

/-- Update many rows at once: `f b` goes to the row whose key is `k b`. A key that is
listed twice takes the update listed first. -/
def flush {β : Type*} (t : Table key uniq) (l : List β) (k : β → κ) (f : β → α → α)
    (hf : ∀ b r, key (f b r) = key r ∧ uniq (f b r) = uniq r) : Table key uniq :=
  t.mapRows
    (fun r => match l.find? fun b => k b = key r with
      | some b => f b r
      | none => r)
    fun r => by
      split
      · exact hf _ r
      · exact ⟨rfl, rfl⟩

section Flush

variable {β : Type*} {l : List β} {k : β → κ} {f : β → α → α}
  (hf : ∀ b r, key (f b r) = key r ∧ uniq (f b r) = uniq r)

@[simp] theorem index_flush (t : Table key uniq) : (t.flush l k f hf).index = t.index :=
  index_mapRows _ _ _

/-- A flushed row is the old row or one listed update of it. -/
theorem mem_flush {t : Table key uniq} {r : α} (h : r ∈ t.flush l k f hf) :
    ∃ r₀ ∈ t, (r = r₀ ∧ ∀ b ∈ l, k b ≠ key r₀) ∨ ∃ b ∈ l, k b = key r₀ ∧ r = f b r₀ := by
  obtain ⟨r₀, hr₀, rfl⟩ := mem_mapRows.mp h
  refine ⟨r₀, hr₀, ?_⟩
  split
  · rename_i b hb
    exact Or.inr ⟨b, List.mem_of_find?_eq_some hb, by simpa using List.find?_some hb, rfl⟩
  · rename_i hb
    exact Or.inl ⟨rfl, fun b hm => by simpa using List.find?_eq_none.mp hb b hm⟩

/-- Every row is still there, under its key and index value. -/
theorem flush_mem {t : Table key uniq} {r : α} (h : r ∈ t) :
    ∃ r' ∈ t.flush l k f hf, key r' = key r ∧ uniq r' = uniq r ∧
      (r' = r ∨ ∃ b ∈ l, k b = key r ∧ r' = f b r) := by
  refine ⟨_, mem_mapRows.mpr ⟨r, h, rfl⟩, ?_⟩
  split
  · rename_i b hb
    have hk : k b = key r := by simpa using List.find?_some hb
    exact ⟨(hf b r).1, (hf b r).2, Or.inr ⟨b, List.mem_of_find?_eq_some hb, hk, rfl⟩⟩
  · exact ⟨rfl, rfl, Or.inl rfl⟩

/-- A row whose key is not listed stays. -/
theorem get_flush_of_not_listed {t : Table key uniq} {k' : κ} (h : ∀ b ∈ l, k b ≠ k') :
    (t.flush l k f hf).get k' = t.get k' := by
  unfold flush
  rw [get_mapRows]
  cases hg : t.get k' with
  | none => rfl
  | some r =>
    have hn : (l.find? fun b => k b = key r) = none :=
      List.find?_eq_none.mpr fun b hb => by simpa [get_key hg] using h b hb
    simp only [Option.map_some, hn]

theorem flush_nil (t : Table key uniq) : t.flush [] k f hf = t := by
  simp [flush, mapRows]

end Flush

end Update

section Insert

variable [DecidableEq κ] [DecidableEq υ]

/-- Insert a row, or say which constraint it violates. -/
def insert (t : Table key uniq) (r : α) : Except Violation (Table key uniq) :=
  if hk : key r ∈ t.rows.map key then .error .primaryKey
  else if hu : (uniq r).any (fun x => decide (x ∈ t.rows.filterMap uniq)) = true then
    .error .uniqueIndex
  else .ok {
    rows := t.rows ++ [r]
    primary := by
      rw [List.map_append, List.map_singleton]
      exact List.concat_eq_append ▸ t.primary.concat hk
    unique := by
      rw [List.filterMap_append]
      cases hx : uniq r with
      | none => simpa [hx] using t.unique
      | some x =>
        have hnot : x ∉ t.rows.filterMap uniq := by simpa [hx] using hu
        rw [List.filterMap_cons_some hx, List.filterMap_nil]
        exact List.concat_eq_append ▸ t.unique.concat hnot }

theorem insert_rows {t t' : Table key uniq} {r : α} (h : t.insert r = .ok t') :
    t'.rows = t.rows ++ [r] := by
  unfold insert at h
  split at h
  · cases h
  · split at h
    · cases h
    · cases h
      rfl

theorem index_insert {t t' : Table key uniq} {r : α} (h : t.insert r = .ok t') :
    t'.index = t.index ++ [(key r, uniq r)] := by
  rw [index, insert_rows h, List.map_append, List.map_singleton, index]

theorem mem_insert {t t' : Table key uniq} {r r' : α} (h : t.insert r = .ok t') :
    r' ∈ t' ↔ r' ∈ t ∨ r' = r := by
  rw [← mem_rows, insert_rows h, List.mem_append, List.mem_singleton, mem_rows]

theorem insert_fresh {t t' : Table key uniq} {r : α} (h : t.insert r = .ok t') :
    t.get (key r) = none := by
  unfold insert at h
  split at h
  · cases h
  · rename_i hk
    refine get_eq_none.mpr fun r' hr' he => hk ?_
    exact he ▸ List.mem_map_of_mem hr'

theorem insert_no_collision {t t' : Table key uniq} {r : α} (h : t.insert r = .ok t')
    {r' : α} (hr' : r' ∈ t) {x : υ} (hx : uniq r = some x) : uniq r' ≠ some x := by
  unfold insert at h
  split at h
  · cases h
  · split at h
    · cases h
    · rename_i _ hu
      intro hx'
      exact hu (by simpa [hx] using ⟨r', hr', hx'⟩)

/-- An insert is rejected by the unique index only if a row with that value exists. -/
theorem insert_uniqueIndex {t : Table key uniq} {r : α}
    (h : t.insert r = .error .uniqueIndex) :
    ∃ x, uniq r = some x ∧ ∃ r' ∈ t, uniq r' = some x := by
  unfold insert at h
  split at h
  · cases h
  · split at h
    · rename_i _ hu
      cases hx : uniq r with
      | none => simp [hx] at hu
      | some x =>
        simp only [hx, Option.any_some, decide_eq_true_eq, List.mem_filterMap] at hu
        exact ⟨x, rfl, hu⟩
    · cases h

/-- A fresh key and no row with the same index value: the insert goes through. -/
theorem insert_ok {t : Table key uniq} {r : α} (hk : t.get (key r) = none)
    (hu : ∀ x, uniq r = some x → ∀ r' ∈ t, uniq r' ≠ some x) :
    ∃ t', t.insert r = .ok t' := by
  have hk' : key r ∉ t.rows.map key := by
    intro hm
    obtain ⟨r', hr', he⟩ := List.mem_map.mp hm
    exact get_eq_none.mp hk r' hr' he
  have hu' : ¬ (uniq r).any (fun x => decide (x ∈ t.rows.filterMap uniq)) = true := by
    cases hx : uniq r with
    | none => simp
    | some x =>
      simp only [Option.any_some, decide_eq_true_eq, List.mem_filterMap, not_exists, not_and]
      exact fun r' hr' => hu x hx r' hr'
  unfold insert
  rw [dif_neg hk', dif_neg hu']
  exact ⟨_, rfl⟩

end Insert

end Table

/-! ## Counting rows by the key they refer to -/

theorem countP_add_of_disjoint {α : Type*} (rows : List α) {p q : α → Bool}
    (h : ∀ a, ¬ (p a = true ∧ q a = true)) :
    rows.countP p + rows.countP q = rows.countP fun a => p a || q a := by
  induction rows with
  | nil => rfl
  | cons a rows ih =>
    have ha := h a
    simp only [List.countP_cons, ← ih]
    cases hp : p a with
    | false => simp only [Bool.false_or, Bool.false_eq_true, if_false]; omega
    | true =>
      have hq : q a = false := by simpa [hp] using ha
      simp only [hq, Bool.or_false, Bool.false_eq_true, if_true, if_false]
      omega

/-- Over distinct keys the counts of the rows that refer to them add up. -/
theorem sum_countP_of_key {α κ : Type*} [DecidableEq κ] (rows : List α) (key : α → κ) (p : α → Bool)
    {keys : List κ} (h : keys.Nodup) :
    (keys.map fun k => rows.countP fun a => key a = k ∧ p a).sum =
      rows.countP fun a => key a ∈ keys ∧ p a := by
  induction keys with
  | nil => simp
  | cons k keys ih =>
    obtain ⟨hk, hkeys⟩ := List.nodup_cons.mp h
    rw [List.map_cons, List.sum_cons, ih hkeys, countP_add_of_disjoint]
    · congr 1
      funext a
      simp [List.mem_cons, or_and_right]
    · rintro a ⟨ha, hb⟩
      simp only [decide_eq_true_eq] at ha hb
      exact hk (ha.1 ▸ hb.1)

end Serverless.Library
