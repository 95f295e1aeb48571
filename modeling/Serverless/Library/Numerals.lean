import Mathlib.Data.Nat.Digits.Defs
import Serverless.Library.Text

/-!
# Numerals that are read back

Zero-padded decimal numerals of a fixed width, and integers in the notation that Python's `int`
reads: white space around, a sign, the prefix of the base, single underscores between the digits.
-/
namespace Serverless.Library.Numerals

/-! ## Fixed width -/

def isDigit (c : Char) : Bool := decide ('0' ≤ c ∧ c ≤ '9')

/-- `f"{n:0{width}d}"`. -/
def padded (width n : Nat) : List Char := (Nat.toDigits 10 n).leftpad width '0'

/-- Read a numeral of exactly this width off the front. -/
def digits (width : Nat) (cs : List Char) : Option (Nat × List Char) :=
  let front := cs.take width
  if front.length = width ∧ front.all isDigit then
    some (Nat.ofDigitChars 10 front 0, cs.drop width)
  else none

/-- Read one given character off the front. -/
def char (c : Char) : List Char → Option (List Char)
  | [] => none
  | d :: cs => if d = c then some cs else none

@[simp] theorem char_cons (c : Char) (cs : List Char) : char c (c :: cs) = some cs := if_pos rfl

theorem all_isDigit_toDigits (n : Nat) : (Nat.toDigits 10 n).all isDigit = true := by
  rw [List.all_eq_true]
  intro c hc
  have h := Nat.isDigit_of_mem_toDigits (by decide) (by decide) hc
  simp only [Char.isDigit, Bool.and_eq_true, decide_eq_true_eq] at h
  exact decide_eq_true h

theorem length_padded {width n : Nat} (hpos : 0 < width) (h : n < 10 ^ width) :
    (padded width n).length = width := by
  have hle : (Nat.toDigits 10 n).length ≤ width := (Nat.length_toDigits_le_iff (by decide) hpos).mpr h
  rw [padded, List.length_leftpad]
  omega

theorem all_isDigit_padded (width n : Nat) : (padded width n).all isDigit = true := by
  rw [padded, List.leftpad, List.all_append, all_isDigit_toDigits, Bool.and_true, List.all_replicate]
  simp [isDigit]

theorem ofDigitChars_padded (width n : Nat) : Nat.ofDigitChars 10 (padded width n) 0 = n := by
  rw [padded, List.leftpad, Nat.ofDigitChars_append, Nat.ofDigitChars_replicate_zero, Nat.mul_zero,
    Nat.ofDigitChars_ten_toDigits]

/-- **A padded numeral is read back.** -/
theorem digits_padded {width n : Nat} (hpos : 0 < width) (h : n < 10 ^ width) (rest : List Char) :
    digits width (padded width n ++ rest) = some (n, rest) := by
  have hlen := length_padded hpos h
  have htake : (padded width n ++ rest).take width = padded width n := List.take_left' hlen
  have hdrop : (padded width n ++ rest).drop width = rest := List.drop_left' hlen
  unfold digits
  rw [htake, hdrop, if_pos ⟨hlen, all_isDigit_padded width n⟩, ofDigitChars_padded]

/-! ## Integers in text -/

/-- The white space around an integer: that of texts without the four separators. -/
def isSpace (c : Char) : Bool := Text.isSpace c && !decide (28 ≤ c.toNat ∧ c.toNat ≤ 31)

/-- The value of a digit below the base; `unicodeDigit` knows those of other scripts. -/
def digitValue (unicodeDigit : Char → Option Nat) (base : Nat) (c : Char) : Option Nat :=
  ((Text.hexValue c).or (unicodeDigit c)).filter (· < base)

/-- The digits of an integer; `gap` says that a digit has to follow. -/
def readDigits (unicodeDigit : Char → Option Nat) (base start : Nat) (gap : Bool) :
    List Char → Option Nat
  | [] => if gap then none else some start
  | c :: cs =>
    if c = '_' then if gap then none else readDigits unicodeDigit base start true cs
    else (digitValue unicodeDigit base c).bind fun d =>
      readDigits unicodeDigit base (base * start + d) false cs

/-- Drop the prefix `0x` of a hexadecimal integer, and one underscore behind it. -/
def dropPrefix (base : Nat) : List Char → List Char
  | '0' :: x :: cs =>
    if base = 16 ∧ (x = 'x' ∨ x = 'X') then
      if cs.head? = some '_' then cs.tail else cs
    else '0' :: x :: cs
  | cs => cs

/-- `int(text, base)` for the bases 10 and 16; `none` is a `ValueError`. -/
def readInt (unicodeDigit : Char → Option Nat) (base : Nat) (text : List Char) : Option Int :=
  let cs := (text.dropWhile isSpace).rdropWhile isSpace
  let read (cs : List Char) := (readDigits unicodeDigit base 0 true (dropPrefix base cs)).map Int.ofNat
  match cs with
  | '-' :: cs => (read cs).map fun n => -n
  | '+' :: cs => read cs
  | cs => read cs

/-- Nothing is dropped from the ends of a text without the characters to drop. -/
theorem dropEnds_eq_self {drops : Char → Bool} {cs : List Char} (h : ∀ c ∈ cs, drops c = false) :
    (cs.dropWhile drops).rdropWhile drops = cs := by
  have hfront : cs.dropWhile drops = cs := by
    cases cs with
    | nil => rfl
    | cons c cs =>
      rw [List.dropWhile_cons_of_neg]
      simp [h c List.mem_cons_self]
  rw [hfront, List.rdropWhile_eq_self_iff]
  intro hne
  simp [h _ (List.getLast_mem hne)]

section Read

variable {unicodeDigit : Char → Option Nat}

theorem readDigits_cons {base start d : Nat} {gap : Bool} {c : Char} (cs : List Char)
    (hd : Text.hexValue c = some d) (hlt : d < base) :
    readDigits unicodeDigit base start gap (c :: cs) =
      readDigits unicodeDigit base (base * start + d) false cs := by
  have hc : c ≠ '_' := by
    rintro rfl
    cases hd
  rw [readDigits, if_neg hc, digitValue, hd, Option.some_or, Option.filter_some, if_pos (by simpa using hlt)]
  rfl

theorem hexValue_lt {c : Char} {d : Nat} (h : Text.hexValue c = some d) : d < 16 := by
  have h0 : '0'.toNat = 48 := rfl
  have ha : 'a'.toNat = 97 := rfl
  have hA : 'A'.toNat = 65 := rfl
  unfold Text.hexValue at h
  split at h
  · rename_i hc
    have hle : c.toNat ≤ 57 := hc.2
    have hd := Option.some.inj h
    omega
  split at h
  · rename_i hc
    have hle : c.toNat ≤ 102 := hc.2
    have hd := Option.some.inj h
    omega
  split at h
  · rename_i hc
    have hle : c.toNat ≤ 70 := hc.2
    have hd := Option.some.inj h
    omega
  · cases h

/-- What reads as a hexadecimal numeral is an integer. -/
theorem readDigits_of_hexNumber {cs : List Char} (hne : cs ≠ []) (gap : Bool) {start n : Nat}
    (h : Text.hexNumber start cs = some n) : readDigits unicodeDigit 16 start gap cs = some n := by
  induction cs generalizing start gap with
  | nil => exact absurd rfl hne
  | cons c cs ih =>
    simp only [Text.hexNumber, Option.bind_eq_some_iff] at h
    obtain ⟨d, hd, h⟩ := h
    rw [readDigits_cons cs hd (hexValue_lt hd)]
    cases cs with
    | nil =>
      cases h
      rfl
    | cons c' cs => exact ih (List.cons_ne_nil _ _) false h

theorem hexValue_of_isDigit {c : Char} (h : isDigit c = true) :
    Text.hexValue c = some (c.toNat - '0'.toNat) ∧ c.toNat - '0'.toNat < 10 := by
  have hc : '0' ≤ c ∧ c ≤ '9' := of_decide_eq_true h
  refine ⟨if_pos hc, ?_⟩
  have h9 : c.toNat ≤ '9'.toNat := hc.2
  have h0 : '0'.toNat = 48 := rfl
  have h9' : '9'.toNat = 57 := rfl
  omega

theorem readDigits_decimal {cs : List Char} (hne : cs ≠ []) (hdigits : cs.all isDigit = true) (gap : Bool)
    (start : Nat) :
    readDigits unicodeDigit 10 start gap cs = some (Nat.ofDigitChars 10 cs start) := by
  induction cs generalizing start gap with
  | nil => exact absurd rfl hne
  | cons c cs ih =>
    rw [List.all_cons, Bool.and_eq_true] at hdigits
    obtain ⟨hd, hlt⟩ := hexValue_of_isDigit hdigits.1
    rw [readDigits_cons cs hd hlt, Nat.ofDigitChars_cons]
    cases cs with
    | nil => rfl
    | cons c' cs => exact ih (List.cons_ne_nil _ _) hdigits.2 false _

/-- Behind a text without white space, signs and an `x` there are only digits. -/
theorem readInt_eq {base : Nat} {cs : List Char} (hspace : ∀ c ∈ cs, isSpace c = false)
    (hsign : ∀ c ∈ cs, c ≠ '-' ∧ c ≠ '+' ∧ c ≠ 'x' ∧ c ≠ 'X') :
    readInt unicodeDigit base cs = (readDigits unicodeDigit base 0 true cs).map Int.ofNat := by
  have hbare : dropPrefix base cs = cs := by
    unfold dropPrefix
    split
    · rename_i x rest
      have hx := hsign x (by simp)
      rw [if_neg]
      simp [hx.2.2.1, hx.2.2.2]
    · rfl
  unfold readInt
  rw [dropEnds_eq_self hspace]
  dsimp only
  split
  · exact absurd rfl (hsign '-' (by simp)).1
  · exact absurd rfl (hsign '+' (by simp)).2.1
  · rw [hbare]

theorem digitChar_of_le {d : Nat} (h : 16 ≤ d) : d.digitChar = '*' := by
  obtain ⟨k, rfl⟩ := Nat.exists_eq_add_of_le' h
  simp [Nat.digitChar]

/-- Digit characters are visible and none of the other characters of an integer. -/
theorem digitChar_plain (d : Nat) : isSpace d.digitChar = false ∧
    d.digitChar ≠ '-' ∧ d.digitChar ≠ '+' ∧ d.digitChar ≠ 'x' ∧ d.digitChar ≠ 'X' := by
  rcases Nat.lt_or_ge d 16 with h | h
  · revert d
    decide
  · rw [digitChar_of_le h]
    decide

theorem eq_digitChar_of_isDigit {c : Char} (h : isDigit c = true) : ∃ d, c = Nat.digitChar d := by
  obtain ⟨-, hlt⟩ := hexValue_of_isDigit h
  have hle : '0'.toNat ≤ c.toNat := (of_decide_eq_true h : '0' ≤ c ∧ c ≤ '9').1
  have h0 : '0'.toNat = 48 := rfl
  refine ⟨c.toNat - '0'.toNat, Char.toNat_inj.mp ?_⟩
  rw [Nat.toNat_digitChar_of_lt_ten hlt]
  omega

/-- **`int(str(n))` is `n`.** -/
theorem readInt_toDigits (n : Nat) : readInt unicodeDigit 10 (Nat.toDigits 10 n) = some (n : Int) := by
  have hmem : ∀ c ∈ Nat.toDigits 10 n, ∃ d, c = Nat.digitChar d := fun c hc =>
    eq_digitChar_of_isDigit (List.all_eq_true.mp (all_isDigit_toDigits n) c hc)
  rw [readInt_eq, readDigits_decimal Nat.toDigits_ne_nil (all_isDigit_toDigits n),
    Nat.ofDigitChars_ten_toDigits]
  · rfl
  · intro c hc
    obtain ⟨d, rfl⟩ := hmem c hc
    exact (digitChar_plain d).1
  · intro c hc
    obtain ⟨d, rfl⟩ := hmem c hc
    exact (digitChar_plain d).2

/-- **A hexadecimal numeral is read back.** -/
theorem readInt_hexChars {width : Nat} (hpos : 0 < width) (n : Nat) :
    readInt unicodeDigit 16 (Text.hexChars width n) = some ((n % 16 ^ width : Nat) : Int) := by
  have hne : Text.hexChars width n ≠ [] := by
    rw [← List.length_pos_iff, Text.length_hexChars]
    exact hpos
  have hread := Text.hexNumber_hexChars width n 0
  rw [Nat.mul_zero, Nat.zero_add] at hread
  rw [readInt_eq, readDigits_of_hexNumber hne true hread]
  · rfl
  · intro c hc
    obtain ⟨d, rfl⟩ := Text.mem_hexChars hc
    exact (digitChar_plain d).1
  · intro c hc
    obtain ⟨d, rfl⟩ := Text.mem_hexChars hc
    exact (digitChar_plain d).2

end Read

end Serverless.Library.Numerals
