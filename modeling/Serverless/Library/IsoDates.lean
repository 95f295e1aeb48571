import Mathlib.Algebra.Order.Ring.Nat
import Serverless.Library.Numerals

/-!
# Dates and times in ISO 8601

A date of the Gregorian calendar with a time of day to the microsecond, as Python's `datetime`
without a time zone: the text that `isoformat` writes, in its two shapes, and the reader of the
calendar forms of `fromisoformat`, and its place on the time line.
-/
namespace Serverless.Library

open Numerals

def isLeap (year : Nat) : Bool := year % 4 = 0 ∧ (year % 100 ≠ 0 ∨ year % 400 = 0)

def daysInMonth (year month : Nat) : Nat :=
  if month = 2 then if isLeap year then 29 else 28
  else if month = 4 ∨ month = 6 ∨ month = 9 ∨ month = 11 then 30
  else 31

/-- The numbers of a date and a time of day. -/
@[ext]
structure DateTimeFields where
  year : Nat
  month : Nat
  day : Nat
  hour : Nat
  minute : Nat
  second : Nat
  microsecond : Nat
  deriving DecidableEq

/-- The ranges that the constructor of `datetime` checks. -/
structure DateTimeFields.Valid (f : DateTimeFields) : Prop where
  year : 1 ≤ f.year ∧ f.year ≤ 9999
  month : 1 ≤ f.month ∧ f.month ≤ 12
  day : 1 ≤ f.day ∧ f.day ≤ daysInMonth f.year f.month
  hour : f.hour < 24
  minute : f.minute < 60
  second : f.second < 60
  microsecond : f.microsecond < 1000000

instance (f : DateTimeFields) : Decidable f.Valid :=
  decidable_of_iff ((1 ≤ f.year ∧ f.year ≤ 9999) ∧ (1 ≤ f.month ∧ f.month ≤ 12) ∧
      (1 ≤ f.day ∧ f.day ≤ daysInMonth f.year f.month) ∧ f.hour < 24 ∧ f.minute < 60 ∧
      f.second < 60 ∧ f.microsecond < 1000000)
    ⟨fun ⟨hy, hm, hd, hh, hmin, hs, hus⟩ => ⟨hy, hm, hd, hh, hmin, hs, hus⟩,
      fun h => ⟨h.year, h.month, h.day, h.hour, h.minute, h.second, h.microsecond⟩⟩

/-- A `datetime` without a time zone. -/
structure DateTime extends DateTimeFields where
  valid : toDateTimeFields.Valid
  deriving DecidableEq

theorem daysInMonth_le (year month : Nat) : daysInMonth year month ≤ 31 := by
  unfold daysInMonth
  split
  · split <;> omega
  · split <;> omega

namespace DateTime

/-! ## Writing -/

/-- `isoformat()`: the fraction is left out when it is zero. -/
def isoformat (t : DateTime) : List Char :=
  padded 4 t.year ++ '-' :: padded 2 t.month ++ '-' :: padded 2 t.day ++
    'T' :: padded 2 t.hour ++ ':' :: padded 2 t.minute ++ ':' :: padded 2 t.second ++
    if t.microsecond = 0 then [] else '.' :: padded 6 t.microsecond

/-! ## Reading -/

/-- `YYYY-MM-DD`. -/
def readDate (cs : List Char) : Option ((Nat × Nat × Nat) × List Char) := do
  let (year, cs) ← digits 4 cs
  let cs ← char '-' cs
  let (month, cs) ← digits 2 cs
  let cs ← char '-' cs
  let (day, cs) ← digits 2 cs
  pure ((year, month, day), cs)

/-- A fraction of a second behind its point or comma, cut off after six digits. -/
def readFraction (cs : List Char) : Option Nat :=
  if cs ≠ [] ∧ cs.all isDigit then
    let used := cs.take 6
    some (Nat.ofDigitChars 10 used 0 * 10 ^ (6 - used.length))
  else none

/-- `HH`, `HH:MM` or `HH:MM:SS`, the last with a fraction or without. -/
def readTime (cs : List Char) : Option (Nat × Nat × Nat × Nat) := do
  let (hour, cs) ← digits 2 cs
  if cs = [] then pure (hour, 0, 0, 0) else
  let cs ← char ':' cs
  let (minute, cs) ← digits 2 cs
  if cs = [] then pure (hour, minute, 0, 0) else
  let cs ← char ':' cs
  let (second, cs) ← digits 2 cs
  if cs = [] then pure (hour, minute, second, 0) else
  let cs ← (char '.' cs).or (char ',' cs)
  let microsecond ← readFraction cs
  pure (hour, minute, second, microsecond)

/-- A date alone, or a date, one character of any kind and a time. -/
def readFields (cs : List Char) : Option DateTimeFields := do
  let ((year, month, day), cs) ← readDate cs
  if cs = [] then pure ⟨year, month, day, 0, 0, 0, 0⟩ else
  let (hour, minute, second, microsecond) ← readTime cs.tail
  pure ⟨year, month, day, hour, minute, second, microsecond⟩

/-- `datetime(...)`; `none` is a `ValueError`. -/
def ofFields (f : DateTimeFields) : Option DateTime := if h : f.Valid then some ⟨f, h⟩ else none

/-- `fromisoformat(text)`. It accepts other forms as well (the basic format, week dates, time
zones); what comes of a text in none of the forms above is `other`. -/
def fromisoformat (other : List Char → Option DateTime) (text : List Char) : Option DateTime :=
  match readFields text with
  | some f => ofFields f
  | none => other text

/-! ## What is written is read back -/

theorem readDate_padded {year month day : Nat} (hy : year < 10000) (hm : month < 100) (hd : day < 100)
    (rest : List Char) :
    readDate (padded 4 year ++ '-' :: (padded 2 month ++ '-' :: (padded 2 day ++ rest))) =
      some ((year, month, day), rest) := by
  unfold readDate
  rw [digits_padded (by decide) hy]
  simp only [Option.bind_eq_bind, Option.bind_some, char_cons]
  rw [digits_padded (by decide) hm]
  simp only [Option.bind_some, char_cons]
  rw [digits_padded (by decide) hd]
  rfl

theorem readFraction_padded {n : Nat} (h : n < 1000000) : readFraction (padded 6 n) = some n := by
  have hlen : (padded 6 n).length = 6 := length_padded (by decide) h
  have hne : padded 6 n ≠ [] := by
    rw [← List.length_pos_iff, hlen]
    decide
  have htake : (padded 6 n).take 6 = padded 6 n := List.take_of_length_le hlen.le
  unfold readFraction
  rw [if_pos ⟨hne, all_isDigit_padded 6 n⟩]
  dsimp only
  rw [htake, hlen, ofDigitChars_padded, Nat.sub_self, Nat.pow_zero, Nat.mul_one]

/-- The two shapes of a time of day. -/
theorem readTime_padded {hour minute second microsecond : Nat} (hh : hour < 100) (hm : minute < 100)
    (hs : second < 100) (hus : microsecond < 1000000) :
    readTime (padded 2 hour ++ ':' :: (padded 2 minute ++ ':' :: (padded 2 second ++
      if microsecond = 0 then [] else '.' :: padded 6 microsecond))) =
        some (hour, minute, second, microsecond) := by
  unfold readTime
  rw [digits_padded (by decide) hh]
  simp only [Option.bind_eq_bind, Option.bind_some, reduceCtorEq, if_false, char_cons]
  rw [digits_padded (by decide) hm]
  simp only [Option.bind_some, reduceCtorEq, if_false, char_cons]
  rw [digits_padded (by decide) hs]
  simp only [Option.bind_some]
  split
  · rename_i hzero
    rw [if_pos rfl, hzero]
    rfl
  · rw [if_neg (List.cons_ne_nil _ _), char_cons, Option.some_or, Option.bind_some,
      readFraction_padded hus]
    rfl

/-- **`fromisoformat` undoes `isoformat`.** -/
theorem fromisoformat_isoformat (other : List Char → Option DateTime) (t : DateTime) :
    fromisoformat other t.isoformat = some t := by
  obtain ⟨f, hv⟩ := t
  have hday := daysInMonth_le f.year f.month
  obtain ⟨⟨-, hy⟩, ⟨-, hm⟩, ⟨-, hd⟩, hh, hmin, hs, hus⟩ := id hv
  have hread : readFields (isoformat ⟨f, hv⟩) = some f := by
    unfold readFields isoformat
    simp only [List.append_assoc, List.cons_append]
    rw [readDate_padded (by omega) (by omega) (by omega)]
    simp only [Option.bind_eq_bind, Option.bind_some]
    rw [if_neg (List.cons_ne_nil _ _), List.tail_cons,
      readTime_padded (by omega) (by omega) (by omega) hus]
    rfl
  unfold fromisoformat
  rw [hread]
  exact dif_pos hv

/-! ## The time line -/

def daysInYear (year : Nat) : Nat := if isLeap year then 366 else 365

/-- The days from the first of January of year 1 to that of a year. -/
def daysBeforeYear (year : Nat) : Nat :=
  let y := year - 1
  y * 365 + y / 4 - y / 100 + y / 400

/-- The days of a year before the first of a month. -/
def daysBeforeMonth (year : Nat) : Nat → Nat
  | 0 | 1 => 0
  | month + 2 => daysBeforeMonth year (month + 1) + daysInMonth year (month + 1)

/-- `toordinal()`: the first of January of year 1 is day 1. -/
def toordinal (f : DateTimeFields) : Nat :=
  daysBeforeYear f.year + daysBeforeMonth f.year f.month + f.day

/-- The microseconds since the last midnight before year 1. -/
def microseconds (t : DateTime) : Nat :=
  (((toordinal t.toDateTimeFields * 24 + t.hour) * 60 + t.minute) * 60 + t.second) * 1000000 +
    t.microsecond

theorem daysBeforeMonth_mono (year : Nat) {m m' : Nat} (h : m ≤ m') :
    daysBeforeMonth year m ≤ daysBeforeMonth year m' := by
  induction h with
  | refl => exact le_rfl
  | @step k _ ih =>
    refine ih.trans ?_
    cases k with
    | zero => exact le_rfl
    | succ k => exact Nat.le_add_right _ _

/-- A day of a month lies before the later months. -/
theorem day_le_daysBeforeMonth {year m m' d : Nat} (hm : 1 ≤ m) (h : m < m')
    (hd : d ≤ daysInMonth year m) : daysBeforeMonth year m + d ≤ daysBeforeMonth year m' := by
  obtain ⟨k, rfl⟩ := Nat.exists_eq_add_of_le' hm
  have hnext : daysBeforeMonth year (k + 2) = daysBeforeMonth year (k + 1) + daysInMonth year (k + 1) :=
    rfl
  have hmono := daysBeforeMonth_mono year (show k + 2 ≤ m' by omega)
  omega

theorem daysBeforeMonth_thirteen (year : Nat) : daysBeforeMonth year 13 = daysInYear year := by
  cases hleap : isLeap year <;> simp [daysBeforeMonth, daysInMonth, daysInYear, hleap]

theorem daysBeforeYear_succ {year : Nat} (h : 1 ≤ year) :
    daysBeforeYear (year + 1) = daysBeforeYear year + daysInYear year := by
  obtain ⟨y, rfl⟩ := Nat.exists_eq_add_of_le' h
  have hdays : daysInYear (y + 1) =
      365 + (if 4 ∣ y + 1 then 1 else 0) - (if 100 ∣ y + 1 then 1 else 0) +
        if 400 ∣ y + 1 then 1 else 0 := by
    unfold daysInYear isLeap
    simp only [decide_eq_true_eq, Nat.dvd_iff_mod_eq_zero]
    split_ifs <;> omega
  unfold daysBeforeYear
  rw [hdays]
  dsimp only
  rw [Nat.add_sub_cancel, Nat.add_sub_cancel, Nat.succ_div, Nat.succ_div, Nat.succ_div]
  have h100 : (if 100 ∣ y + 1 then 1 else 0) ≤ if 4 ∣ y + 1 then 1 else 0 := by
    split_ifs <;> omega
  omega

theorem daysBeforeYear_mono {y y' : Nat} (hy : 1 ≤ y) (h : y ≤ y') :
    daysBeforeYear y ≤ daysBeforeYear y' := by
  induction h with
  | refl => exact le_rfl
  | @step k hk ih =>
    have hle : y ≤ k := hk
    rw [daysBeforeYear_succ (hy.trans hle)]
    omega

/-- A day of a year lies before the later years. -/
theorem toordinal_le_daysBeforeYear {f : DateTimeFields} (hf : f.Valid) {y : Nat} (h : f.year < y) :
    toordinal f ≤ daysBeforeYear y := by
  have hday := day_le_daysBeforeMonth hf.month.1 (show f.month < 13 by have := hf.month.2; omega) hf.day.2
  have hmono := daysBeforeYear_mono (show 1 ≤ f.year + 1 by omega) h
  rw [daysBeforeMonth_thirteen] at hday
  rw [daysBeforeYear_succ hf.year.1] at hmono
  unfold toordinal
  omega

theorem toordinal_lt {f g : DateTimeFields} (hf : f.Valid) (hg : g.Valid)
    (h : f.year < g.year ∨ f.year = g.year ∧ f.month < g.month) : toordinal f < toordinal g := by
  have hpos := hg.day.1
  rcases h with h | ⟨hy, hm⟩
  · have hle := toordinal_le_daysBeforeYear hf h
    unfold toordinal at hle ⊢
    omega
  · have hday := day_le_daysBeforeMonth hf.month.1 hm hf.day.2
    unfold toordinal
    rw [← hy]
    omega

/-- **Different times are different points of the time line.** -/
theorem microseconds_injective : Function.Injective microseconds := by
  rintro ⟨f, hf⟩ ⟨g, hg⟩ h
  have hsame : f = g := by
    have hh := hf.hour
    have hmin := hf.minute
    have hs := hf.second
    have hus := hf.microsecond
    have hh' := hg.hour
    have hmin' := hg.minute
    have hs' := hg.second
    have hus' := hg.microsecond
    unfold microseconds at h
    dsimp only at h
    have hord : toordinal f = toordinal g := by omega
    have hyear : f.year = g.year := by
      rcases Nat.lt_trichotomy f.year g.year with hlt | heq | hlt
      · exact absurd hord (toordinal_lt hf hg (.inl hlt)).ne
      · exact heq
      · exact absurd hord.symm (toordinal_lt hg hf (.inl hlt)).ne
    have hmonth : f.month = g.month := by
      rcases Nat.lt_trichotomy f.month g.month with hlt | heq | hlt
      · exact absurd hord (toordinal_lt hf hg (.inr ⟨hyear, hlt⟩)).ne
      · exact heq
      · exact absurd hord.symm (toordinal_lt hg hf (.inr ⟨hyear.symm, hlt⟩)).ne
    have hday : f.day = g.day := by
      unfold toordinal at hord
      rw [hyear, hmonth] at hord
      omega
    have hhour : f.hour = g.hour := by omega
    have hminute : f.minute = g.minute := by omega
    have hsecond : f.second = g.second := by omega
    have hmicrosecond : f.microsecond = g.microsecond := by omega
    exact DateTimeFields.ext hyear hmonth hday hhour hminute hsecond hmicrosecond
  cases hsame
  rfl

end DateTime

end Serverless.Library
