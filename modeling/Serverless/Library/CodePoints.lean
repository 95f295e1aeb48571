import Mathlib.Data.List.Chain

/-!
# Texts of code points

Texts that may hold surrogates, as lists of code points. Every `String` is such a text, one
without surrogates. Joining a high surrogate and the low one behind it into the code point that
they stand for undoes the split into UTF-16 units, as long as no such pair was there before.
-/
namespace Serverless.Library

/-- A code point, the surrogates among them. -/
abbrev CodePoint := Fin 0x110000

namespace CodePoint

instance : @NeZero Nat Zero.ofOfNat0 0x110000 := ⟨Nat.succ_ne_zero 0x10FFFF⟩

instance : LawfulBEq (List CodePoint) := inferInstance

theorem toNat_valid (c : Char) : c.toNat < 0xD800 ∨ 0xDFFF < c.toNat ∧ c.toNat < 0x110000 :=
  c.valid

def ofChar (c : Char) : CodePoint :=
  ⟨c.toNat, by have := toNat_valid c; omega⟩

instance : Coe Char CodePoint := ⟨ofChar⟩

theorem ofChar_val (c : Char) : (ofChar c).val = c.toNat := rfl

theorem ofChar_injective {c d : Char} (h : ofChar c = ofChar d) : c = d := by
  rw [← Char.ofNat_toNat c, ← Char.ofNat_toNat d, ← ofChar_val, ← ofChar_val, h]

@[simp] theorem ofChar_inj {c d : Char} : ofChar c = ofChar d ↔ c = d :=
  ⟨ofChar_injective, congrArg ofChar⟩

def IsHigh (p : CodePoint) : Prop := 0xD800 ≤ p.val ∧ p.val < 0xDC00

def IsLow (p : CodePoint) : Prop := 0xDC00 ≤ p.val ∧ p.val < 0xE000

def IsSurrogate (p : CodePoint) : Prop := 0xD800 ≤ p.val ∧ p.val < 0xE000

instance (p : CodePoint) : Decidable (IsHigh p) := inferInstanceAs (Decidable (_ ∧ _))

instance (p : CodePoint) : Decidable (IsLow p) := inferInstanceAs (Decidable (_ ∧ _))

instance (p : CodePoint) : Decidable (IsSurrogate p) := inferInstanceAs (Decidable (_ ∧ _))

theorem not_isSurrogate_ofChar (c : Char) : ¬ IsSurrogate (ofChar c) := by
  have hv := toNat_valid c
  unfold IsSurrogate
  rw [ofChar_val]
  omega

/-- A code point that is not a surrogate is that of a character. -/
theorem toNat_ofNat {p : CodePoint} (h : ¬ IsSurrogate p) : (Char.ofNat p.val).toNat = p.val := by
  have := p.isLt
  have hv : p.val.isValidChar := by
    unfold Nat.isValidChar
    unfold IsSurrogate at h
    omega
  rw [Char.ofNat, dif_pos hv]
  rfl

/-! ## Strings -/

/-- A string as a text of code points. -/
def ofString (s : String) : List CodePoint := s.toList.map ofChar

instance : Coe String (List CodePoint) := ⟨ofString⟩

theorem ofString_injective {s t : String} (h : ofString s = ofString t) : s = t :=
  String.toList_injective (List.map_injective_iff.mpr (fun _ _ => ofChar_injective) h)

@[simp] theorem ofString_inj {s t : String} : ofString s = ofString t ↔ s = t :=
  ⟨ofString_injective, congrArg ofString⟩

@[simp] theorem ofString_beq (s t : String) : (ofString s == ofString t) = (s == t) := by
  rw [Bool.eq_iff_iff, beq_iff_eq, beq_iff_eq, ofString_inj]

theorem ofString_append (s t : String) : ofString (s ++ t) = ofString s ++ ofString t := by
  simp [ofString]

@[simp] theorem length_ofString (s : String) : (ofString s).length = s.length := by
  simp [ofString, String.length_toList]

theorem ofString_eq_nil {s : String} : ofString s = [] ↔ s = "" := by
  simp [ofString]

theorem not_isSurrogate_of_mem {s : String} {p : CodePoint} (h : p ∈ ofString s) :
    ¬ IsSurrogate p := by
  obtain ⟨c, -, rfl⟩ := List.mem_map.mp h
  exact not_isSurrogate_ofChar c

/-! ## Surrogate pairs -/

/-- The code point that a high and a low surrogate stand for. -/
def pair (u v : CodePoint) : CodePoint :=
  Fin.ofNat _ (0x10000 + ((u.val - 0xD800) * 1024 + (v.val - 0xDC00)))

/-- Put every high surrogate together with a low one behind it. -/
def joinPairs : List CodePoint → List CodePoint
  | [] => []
  | [u] => [u]
  | u :: v :: us =>
    if IsHigh u ∧ IsLow v then pair u v :: joinPairs us else u :: joinPairs (v :: us)

/-- No high surrogate stands right in front of a low one. -/
def Joined (s : List CodePoint) : Prop := s.IsChain fun u v => ¬ (IsHigh u ∧ IsLow v)

instance (s : List CodePoint) : Decidable (Joined s) :=
  inferInstanceAs (Decidable (List.IsChain _ s))

theorem joined_of_forall {s : List CodePoint} (h : ∀ p ∈ s, ¬ IsSurrogate p) : Joined s := by
  induction s with
  | nil => exact List.isChain_nil
  | cons p s ih =>
    refine List.isChain_cons.mpr ⟨?_, ih fun q hq => h q (List.mem_cons_of_mem p hq)⟩
    rintro q - ⟨⟨h1, h2⟩, -⟩
    exact h p List.mem_cons_self ⟨h1, by omega⟩

theorem joined_ofString (s : String) : Joined (ofString s) :=
  joined_of_forall fun _ => not_isSurrogate_of_mem

/-- The first unit that UTF-16 needs for a code point beyond the basic plane, and the second. -/
def high (p : CodePoint) : CodePoint := Fin.ofNat _ (0xD800 + (p.val - 0x10000) / 1024)

def low (p : CodePoint) : CodePoint := Fin.ofNat _ (0xDC00 + (p.val - 0x10000) % 1024)

/-- A code point as UTF-16 units. -/
def units (p : CodePoint) : List CodePoint := if p.val < 0x10000 then [p] else [high p, low p]

theorem high_val {p : CodePoint} : (high p).val = 0xD800 + (p.val - 0x10000) / 1024 := by
  have := p.isLt
  exact Nat.mod_eq_of_lt (by omega)

theorem low_val {p : CodePoint} : (low p).val = 0xDC00 + (p.val - 0x10000) % 1024 :=
  Nat.mod_eq_of_lt (by omega)

theorem units_lt (p : CodePoint) : ∀ u ∈ p.units, u.val < 0x10000 := by
  have hp := p.isLt
  intro u hu
  unfold units at hu
  split at hu
  · rename_i h
    rwa [List.mem_singleton.mp hu]
  · simp only [List.mem_cons, List.not_mem_nil, or_false] at hu
    rcases hu with rfl | rfl
    · rw [high_val]
      omega
    · rw [low_val]
      omega

theorem pair_high_low {p : CodePoint} (h : ¬ p.val < 0x10000) : pair (high p) (low p) = p := by
  have := p.isLt
  apply Fin.ext
  unfold pair
  rw [high_val, low_val]
  exact (Nat.mod_eq_of_lt (by omega)).trans (by omega)

/-- The units of a text begin as the text does, unless they begin with a high surrogate. -/
theorem head_units (s : List CodePoint) :
    ∀ u ∈ (s.flatMap units).head?, ¬ IsLow u ∨ s.head? = some u := by
  cases s with
  | nil => simp
  | cons p s =>
    intro u hu
    rw [List.flatMap_cons, units] at hu
    split at hu
    · exact Or.inr (by simpa using hu)
    · refine Or.inl ?_
      obtain rfl : high p = u := by simpa using hu
      have := p.isLt
      unfold IsLow
      rw [high_val]
      omega

theorem joinPairs_cons {u : CodePoint} {us : List CodePoint}
    (h : ∀ v ∈ us.head?, ¬ (IsHigh u ∧ IsLow v)) : joinPairs (u :: us) = u :: joinPairs us := by
  cases us with
  | nil => rfl
  | cons v us => exact if_neg (h v rfl)

/-- **Joining the units of a text gives the text.** -/
theorem joinPairs_units {s : List CodePoint} (h : Joined s) : joinPairs (s.flatMap units) = s := by
  induction s with
  | nil => rfl
  | cons p s ih =>
    have hs : Joined s := h.tail
    rw [List.flatMap_cons, units]
    split
    · rename_i hp
      rw [List.singleton_append, joinPairs_cons, ih hs]
      rintro v hv ⟨hhigh, hlow⟩
      rcases head_units s v hv with hne | hhead
      · exact hne hlow
      · exact (List.isChain_cons.mp h).1 v hhead ⟨hhigh, hlow⟩
    · rename_i hp
      have := p.isLt
      have hhigh : IsHigh (high p) := by
        unfold IsHigh
        rw [high_val]
        omega
      have hlow : IsLow (low p) := by
        unfold IsLow
        rw [low_val]
        omega
      rw [List.cons_append, List.singleton_append, joinPairs, if_pos ⟨hhigh, hlow⟩,
        pair_high_low hp, ih hs]

end CodePoint

end Serverless.Library
