import Mathlib.Data.List.Sort
import Serverless.Library.Table

/-!
# Queries do not see the order of the rows

Two tables that hold the same rows of a kind give the same answers about them: the selections
are permutations of one another, a look-up that at most one row meets finds the same row, a
selection sorted by something that tells its rows apart is the same list, and so are aggregates.
Inserts are rejected for the same reason if the constraints concern that kind only.
-/
namespace Serverless.Library

universe u v w

/-! ## Lists -/

/-- Sorting by an order that tells the elements apart leaves nothing of their former order. -/
theorem insertionSort_eq_of_perm {α : Type u} {r : α → α → Prop} [DecidableRel r] {l l' : List α}
    (hperm : l.Perm l') (htotal : ∀ a b, r a b ∨ r b a) (htrans : ∀ a b c, r a b → r b c → r a c)
    (hanti : ∀ a ∈ l, ∀ b ∈ l, r a b → r b a → a = b) :
    l.insertionSort r = l'.insertionSort r := by
  have : Std.Total r := ⟨htotal⟩
  have : IsTrans α r := ⟨htrans⟩
  refine List.Perm.eq_of_pairwise ?_ (List.pairwise_insertionSort r l)
    (List.pairwise_insertionSort r l') ?_
  · intro a b ha hb
    have hb' : b ∈ l := hperm.symm.subset ((List.mem_insertionSort r).mp hb)
    exact hanti a ((List.mem_insertionSort r).mp ha) b hb'
  · exact ((List.perm_insertionSort r l).trans hperm).trans (List.perm_insertionSort r l').symm

theorem insertionSort_le_eq_of_perm {α : Type u} [LinearOrder α] {l l' : List α} (h : l.Perm l') :
    l.insertionSort (· ≤ ·) = l'.insertionSort (· ≤ ·) :=
  insertionSort_eq_of_perm h le_total (fun _ _ _ => le_trans) fun _ _ _ _ => le_antisymm

/-- The head of a list that is sorted downwards is the greatest element. -/
theorem head?_insertionSort {α : Type u} (key : α → Nat) {l : List α} {a : α}
    (h : (l.insertionSort fun a b => key b ≤ key a).head? = some a) :
    a ∈ l ∧ ∀ b ∈ l, key b ≤ key a := by
  have : Std.Total fun a b : α => key b ≤ key a := ⟨fun a b => Nat.le_total (key b) (key a)⟩
  have : IsTrans α fun a b => key b ≤ key a := ⟨fun _ _ _ hab hbc => hbc.trans hab⟩
  have hsorted := List.pairwise_insertionSort (fun a b : α => key b ≤ key a) l
  have hperm := List.perm_insertionSort (fun a b : α => key b ≤ key a) l
  obtain ⟨rest, hcons⟩ := List.head?_eq_some_iff.mp h
  rw [hcons] at hsorted hperm
  refine ⟨hperm.subset List.mem_cons_self, fun b hb => ?_⟩
  rcases List.mem_cons.mp (hperm.symm.subset hb) with rfl | hrest
  · exact le_rfl
  · exact List.rel_of_pairwise_cons hsorted hrest

theorem min?_eq_of_perm {α : Type u} [LinearOrder α] {l l' : List α} (h : l.Perm l') :
    l.min? = l'.min? := by
  cases hl : l.min? with
  | none =>
    have hnil : l = [] := List.min?_eq_none_iff.mp hl
    rw [hnil] at h
    rw [h.symm.eq_nil]
    rfl
  | some a =>
    obtain ⟨ha, hle⟩ := List.min?_eq_some_iff.mp hl
    exact (List.min?_eq_some_iff.mpr ⟨h.subset ha, fun b hb => hle b (h.symm.subset hb)⟩).symm

/-- A search that at most one element meets finds it in any order. -/
theorem find?_eq_of_mem {α : Type u} {l l' : List α} {p : α → Bool}
    (hmem : ∀ a, p a = true → (a ∈ l ↔ a ∈ l'))
    (hone : ∀ a ∈ l, ∀ b ∈ l, p a = true → p b = true → a = b) : l.find? p = l'.find? p := by
  cases hl : l.find? p with
  | none =>
    symm
    rw [List.find?_eq_none] at hl ⊢
    intro a ha hp
    exact hl a ((hmem a hp).mpr ha) hp
  | some a =>
    have hp := List.find?_some hl
    have ha := List.mem_of_find?_eq_some hl
    cases hl' : l'.find? p with
    | none => exact absurd hp (List.find?_eq_none.mp hl' a ((hmem a hp).mp ha))
    | some b =>
      have hpb := List.find?_some hl'
      have hb := (hmem b hpb).mpr (List.mem_of_find?_eq_some hl')
      rw [hone a ha b hb hp hpb]

/-! ## Tables -/

namespace Table

variable {α : Type u} {κ : Type v} {υ : Type w} {key : α → κ} {uniq : α → Option υ}
  {t t' : Table key uniq}

theorem nodup_rows (t : Table key uniq) : t.rows.Nodup := List.Nodup.of_map key t.primary

/-- Selections of the same rows. -/
theorem filter_perm {p q : α → Bool} (h : ∀ r, (r ∈ t ∧ p r = true) ↔ (r ∈ t' ∧ q r = true)) :
    (t.rows.filter p).Perm (t'.rows.filter q) := by
  rw [List.perm_ext_iff_of_nodup (t.nodup_rows.filter p) (t'.nodup_rows.filter q)]
  intro r
  rw [List.mem_filter, List.mem_filter]
  exact h r

variable [DecidableEq κ] [DecidableEq υ]

/-- A row with a fresh key and an index value that is taken. -/
theorem insert_taken {r r' : α} {x : υ} (hk : t.get (key r) = none) (hx : uniq r = some x)
    (hr' : r' ∈ t) (hx' : uniq r' = some x) : t.insert r = .error .uniqueIndex := by
  cases hi : t.insert r with
  | ok u => exact absurd hx' (insert_no_collision hi hr' hx)
  | error v =>
    cases v with
    | uniqueIndex => rfl
    | primaryKey =>
      unfold insert at hi
      split at hi
      · rename_i hmem
        obtain ⟨r'', hr'', he⟩ := List.mem_map.mp hmem
        exact absurd he (get_eq_none.mp hk r'' hr'')
      · split at hi <;> cases hi

/-- A row whose key is free in both tables is inserted into both, or the index rejects it twice. -/
theorem insert_both {r : α} (hk : t.get (key r) = none) (hk' : t'.get (key r) = none)
    (hindex : ∀ x, uniq r = some x → ((∃ r' ∈ t, uniq r' = some x) ↔ ∃ r' ∈ t', uniq r' = some x)) :
    (t.insert r = .error .uniqueIndex ∧ t'.insert r = .error .uniqueIndex) ∨
      ∃ u u', t.insert r = .ok u ∧ t'.insert r = .ok u' := by
  by_cases htaken : ∃ x, uniq r = some x ∧ ∃ r' ∈ t, uniq r' = some x
  · obtain ⟨x, hx, r', hr', hx'⟩ := htaken
    obtain ⟨r'', hr'', hx''⟩ := (hindex x hx).mp ⟨r', hr', hx'⟩
    exact .inl ⟨insert_taken hk hx hr' hx', insert_taken hk' hx hr'' hx''⟩
  · have hfree : ∀ x, uniq r = some x → ∀ r' ∈ t, uniq r' ≠ some x :=
      fun x hx r' hr' hx' => htaken ⟨x, hx, r', hr', hx'⟩
    have hfree' : ∀ x, uniq r = some x → ∀ r' ∈ t', uniq r' ≠ some x := by
      intro x hx r' hr' hx'
      obtain ⟨r'', hr'', hx''⟩ := (hindex x hx).mpr ⟨r', hr', hx'⟩
      exact hfree x hx r'' hr'' hx''
    obtain ⟨u, hu⟩ := insert_ok hk hfree
    obtain ⟨u', hu'⟩ := insert_ok hk' hfree'
    exact .inr ⟨u, u', hu, hu'⟩

theorem get_insert_of_ne {u : Table key uniq} {r : α} (h : t.insert r = .ok u) {k : κ}
    (hk : key r ≠ k) : u.get k = t.get k := by
  ext x
  rw [get_eq_some, get_eq_some, mem_insert h]
  constructor
  · rintro ⟨hx | rfl, hxk⟩
    · exact ⟨hx, hxk⟩
    · exact absurd hxk hk
  · rintro ⟨hx, hxk⟩
    exact ⟨.inl hx, hxk⟩

/-- What a reference finds is not changed by an insert: the row it finds was there before. -/
theorem insert_referenced {u : Table key uniq} {r : α} (h : t.insert r = .ok u) {k : κ}
    (hk : ∃ p ∈ t, key p = k) (q : α → Prop) :
    (∃ p ∈ u, key p = k ∧ q p) ↔ ∃ p ∈ t, key p = k ∧ q p := by
  constructor
  · rintro ⟨p, hp, hpk, hq⟩
    rcases (mem_insert h).mp hp with hp | rfl
    · exact ⟨p, hp, hpk, hq⟩
    · obtain ⟨p', hp', hpk'⟩ := hk
      exact absurd (hpk'.trans hpk.symm) (get_eq_none.mp (insert_fresh h) p' hp')
  · rintro ⟨p, hp, hpk, hq⟩
    exact ⟨p, (mem_insert h).mpr (.inl hp), hpk, hq⟩

/-- A column kept apart from the rows, after an insert that sets it for the new row. -/
theorem insert_column {u : Table key uniq} {r : α} (h : t.insert r = .ok u) {β : Type*} (c : κ → β)
    (b : β) (x : α) (y : β) :
    (x ∈ u ∧ y = Function.update c (key r) b (key x)) ↔ (x ∈ t ∧ y = c (key x)) ∨ (x = r ∧ y = b) := by
  have hne : ∀ r' ∈ t, key r' ≠ key r := get_eq_none.mp (insert_fresh h)
  constructor
  · rintro ⟨hx, hy⟩
    rcases (mem_insert h).mp hx with hx | rfl
    · rw [Function.update_of_ne (hne x hx)] at hy
      exact .inl ⟨hx, hy⟩
    · rw [Function.update_self] at hy
      exact .inr ⟨rfl, hy⟩
  · rintro (⟨hx, hy⟩ | ⟨rfl, rfl⟩)
    · refine ⟨(mem_insert h).mpr (.inl hx), ?_⟩
      rw [Function.update_of_ne (hne x hx)]
      exact hy
    · exact ⟨(mem_insert h).mpr (.inr rfl), (Function.update_self (key x) y c).symm⟩

end Table

end Serverless.Library
