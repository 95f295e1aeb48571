import Mathlib.Algebra.Order.Ring.Nat
import Mathlib.Data.List.DropRight
import Mathlib.Tactic.Ring

/-!
# Digits and surrounding white space

Fixed-width hexadecimal numerals with the reader that undoes them, decimal numerals as
an injection, and the stripping of white space from both ends of a text. Texts are
lists of characters.
-/
namespace Serverless.Library.Text

/-- The value of a hexadecimal digit of either case. -/
def hexValue (c : Char) : Option Nat :=
  if '0' ≤ c ∧ c ≤ '9' then some (c.toNat - '0'.toNat)
  else if 'a' ≤ c ∧ c ≤ 'f' then some (c.toNat - 'a'.toNat + 10)
  else if 'A' ≤ c ∧ c ≤ 'F' then some (c.toNat - 'A'.toNat + 10)
  else none

theorem hexValue_digitChar : ∀ n < 16, hexValue n.digitChar = some n := by decide

/-- The last `width` hexadecimal digits of a number, in lower case. -/
def hexChars : Nat → Nat → List Char
  | 0, _ => []
  | width + 1, n => hexChars width (n / 16) ++ [(n % 16).digitChar]

/-- Read a hexadecimal numeral, continuing from the digits read so far. -/
def hexNumber (start : Nat) : List Char → Option Nat
  | [] => some start
  | c :: cs => (hexValue c).bind fun d => hexNumber (16 * start + d) cs

@[simp] theorem length_hexChars (width n : Nat) : (hexChars width n).length = width := by
  induction width generalizing n with
  | zero => rfl
  | succ width ih => simp [hexChars, ih]

theorem hexNumber_append (start : Nat) (cs ds : List Char) :
    hexNumber start (cs ++ ds) = (hexNumber start cs).bind fun n => hexNumber n ds := by
  induction cs generalizing start with
  | nil => rfl
  | cons c cs ih =>
    cases h : hexValue c with
    | none => simp [hexNumber, h]
    | some d => simp [hexNumber, h, ih]

/-- **Reading undoes writing**, up to the digits that the width cuts off. -/
theorem hexNumber_hexChars (width n start : Nat) :
    hexNumber start (hexChars width n) = some (16 ^ width * start + n % 16 ^ width) := by
  induction width generalizing n with
  | zero => simp [hexChars, hexNumber, Nat.mod_one]
  | succ width ih =>
    have hd : hexValue (n % 16).digitChar = some (n % 16) :=
      hexValue_digitChar _ (Nat.mod_lt _ (by decide))
    rw [hexChars, hexNumber_append, ih]
    simp only [Option.bind_some, hexNumber, hd, Option.some.injEq]
    rw [pow_succ, mul_comm (16 ^ width) 16, Nat.mod_mul]
    ring

theorem hexChars_injective {width m n : Nat} (hm : m < 16 ^ width) (hn : n < 16 ^ width)
    (h : hexChars width m = hexChars width n) : m = n := by
  have hr := hexNumber_hexChars width m 0
  rw [h, hexNumber_hexChars width n 0] at hr
  simpa [Nat.mod_eq_of_lt hm, Nat.mod_eq_of_lt hn, eq_comm] using hr

theorem digitChar_ne_dash (n : Nat) : n.digitChar ≠ '-' := Nat.digitChar_ne '-' (by decide)

theorem digitChar_ne_slash (n : Nat) : n.digitChar ≠ '/' := Nat.digitChar_ne '/' (by decide)

theorem digitChar_ne_dot (n : Nat) : n.digitChar ≠ '.' := Nat.digitChar_ne '.' (by decide)

/-- Every character of a hexadecimal numeral is a digit character. -/
theorem mem_hexChars {width n : Nat} {c : Char} (h : c ∈ hexChars width n) :
    ∃ d, c = Nat.digitChar d := by
  induction width generalizing n with
  | zero => cases h
  | succ width ih =>
    rcases List.mem_append.mp h with h | h
    · exact ih h
    · exact ⟨n % 16, List.mem_singleton.mp h⟩

/-- Different numbers have different decimal numerals. -/
theorem toDigits_injective {m n : Nat} (h : Nat.toDigits 10 m = Nat.toDigits 10 n) : m = n := by
  rw [← Nat.ofDigitChars_ten_toDigits (n := m), h, Nat.ofDigitChars_ten_toDigits]

/-- The characters that Unicode counts as white space, with the four separators
`U+001C`..`U+001F`. -/
def isSpace (c : Char) : Bool :=
  let n := c.toNat
  decide (9 ≤ n ∧ n ≤ 13 ∨ 28 ≤ n ∧ n ≤ 32 ∨ n = 0x85 ∨ n = 0xA0 ∨ n = 0x1680 ∨
    0x2000 ≤ n ∧ n ≤ 0x200A ∨ n = 0x2028 ∨ n = 0x2029 ∨ n = 0x202F ∨ n = 0x205F ∨ n = 0x3000)

/-- Drop white space from both ends. -/
def strip (cs : List Char) : List Char := (cs.dropWhile isSpace).rdropWhile isSpace

/-- Nothing but white space. -/
def Blank (cs : List Char) : Prop := ∀ c ∈ cs, isSpace c = true

instance (cs : List Char) : Decidable (Blank cs) :=
  inferInstanceAs (Decidable (∀ c ∈ cs, isSpace c = true))

theorem blank_nil : Blank [] := fun _ h => absurd h List.not_mem_nil

theorem dropWhile_blank {cs : List Char} (h : Blank cs) : cs.dropWhile isSpace = [] :=
  List.dropWhile_eq_nil_iff.mpr h

/-- A text that ends in a visible character, behind any other text: only the front of the other
text is stripped. -/
theorem strip_append {front back : List Char} {c : Char} (hc : isSpace c = false)
    (hback : back.getLast? = some c)
    (hhead : ∀ d ∈ back.head?, isSpace d = false) :
    strip (front ++ back) = front.dropWhile isSpace ++ back := by
  obtain ⟨init, rfl⟩ := List.getLast?_eq_some_iff.mp hback
  have hkeep : (init ++ [c]).dropWhile isSpace = init ++ [c] := by
    cases init with
    | nil => simp [hc]
    | cons d init =>
      have hd : isSpace d = false := hhead d (by simp)
      simp [hd]
  have hfront : (front ++ (init ++ [c])).dropWhile isSpace =
      front.dropWhile isSpace ++ (init ++ [c]) := by
    rw [List.dropWhile_append]
    split
    · rename_i hn
      rw [List.isEmpty_iff.mp hn, hkeep]
      rfl
    · rfl
  rw [strip, hfront, ← List.append_assoc, List.rdropWhile_concat_neg]
  simp [hc]

end Serverless.Library.Text
