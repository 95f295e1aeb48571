import Mathlib.Data.List.Nodup
import Mathlib.Data.List.TakeDrop
import Serverless.Model.Json

/-!
# `json.loads` undoes `json.dumps`

For values whose floats the float text law covers, whose integers and brackets the decoder can
read, whose texts hold no surrogate pair and whose objects repeat no key.
-/
namespace Serverless.Model.Json

open Serverless.Library

/-! ## Strings -/

/-- A scan that finds some units before it goes on. -/
def Scan.append (us : PyStr) (r : Scan PyStr) : Scan PyStr := us.foldr Scan.cons r

theorem Scan.append_ok (us vs : PyStr) (rest : List Char) :
    Scan.append us (.ok (vs, rest)) = .ok (us ++ vs, rest) := by
  induction us with
  | nil => rfl
  | cons u us ih =>
    rw [Scan.append, List.foldr_cons, ← Scan.append, ih]
    rfl

private theorem scanUnits_quote (cs : List Char) : scanUnits ('"' :: cs) = .ok ([], cs) := by
  rw [scanUnits.eq_def]
  exact if_pos rfl

private theorem scanUnits_plain {c : Char} (hq : c ≠ '"') (hb : c ≠ '\\')
    (hc : ¬ c.toNat < 0x20) (cs : List Char) :
    scanUnits (c :: cs) = .cons c (scanUnits cs) := by
  rw [scanUnits.eq_def]
  dsimp only
  rw [if_neg hq, if_neg hb, if_neg hc]

private theorem scanUnits_simple {e : Char} {u : CodePoint} (he : e ≠ 'u') (h : simpleEscape e = some u)
    (cs : List Char) : scanUnits ('\\' :: e :: cs) = .cons u (scanUnits cs) := by
  rw [scanUnits.eq_def]
  dsimp only
  rw [if_neg (by decide), if_pos rfl, if_neg he, h]

theorem scanUnits_escapeUnit {u : CodePoint} (hu : u.val < 0x10000) (cs : List Char) :
    scanUnits (escapeUnit u ++ cs) = .cons u (scanUnits cs) := by
  have hlen := Text.length_hexChars 4 u.val
  have hnum := Text.hexNumber_hexChars 4 u.val 0
  have hmod : u.val % 16 ^ 4 = u.val := Nat.mod_eq_of_lt hu
  have hfin : Fin.ofNat 0x110000 u.val = u := Fin.ext (Nat.mod_eq_of_lt u.isLt)
  rw [escapeUnit]
  generalize Text.hexChars 4 u.val = hex at hlen hnum
  obtain ⟨h₁, h₂, h₃, h₄, rfl⟩ := List.length_eq_four.mp hlen
  simp only [List.cons_append, List.nil_append]
  rw [scanUnits.eq_def]
  dsimp only
  rw [if_neg (by decide), if_pos rfl, if_pos rfl, hnum, hmod, Nat.mul_zero, Nat.zero_add]
  dsimp only
  rw [hfin]

theorem scanUnits_flatMap_escapeUnit {us : PyStr} (h : ∀ u ∈ us, u.val < 0x10000)
    (cs : List Char) : scanUnits (us.flatMap escapeUnit ++ cs) = .append us (scanUnits cs) := by
  induction us with
  | nil => rfl
  | cons u us ih =>
    rw [List.flatMap_cons, List.append_assoc, scanUnits_escapeUnit (h u List.mem_cons_self),
      ih fun v hv => h v (List.mem_cons_of_mem u hv)]
    rfl

/-- An escaped character is scanned as its units. -/
theorem scanUnits_escapeChar (p : CodePoint) (cs : List Char) :
    scanUnits (escapeChar p ++ cs) = .append p.units (scanUnits cs) := by
  unfold escapeChar
  split
  · rename_i h; subst h; exact scanUnits_simple (by decide) (by decide) cs
  split
  · rename_i h; subst h; exact scanUnits_simple (by decide) (by decide) cs
  split
  · rename_i h; subst h; exact scanUnits_simple (by decide) (by decide) cs
  split
  · rename_i h; subst h; exact scanUnits_simple (by decide) (by decide) cs
  split
  · rename_i h; subst h; exact scanUnits_simple (by decide) (by decide) cs
  split
  · rename_i h; subst h; exact scanUnits_simple (by decide) (by decide) cs
  split
  · rename_i h; subst h; exact scanUnits_simple (by decide) (by decide) cs
  split
  · rename_i hq hb _ _ _ _ _ h
    have hval : (Char.ofNat p.val).toNat = p.val :=
      CodePoint.toNat_ofNat (by unfold CodePoint.IsSurrogate; omega)
    have hchar : CodePoint.ofChar (Char.ofNat p.val) = p := Fin.ext hval
    have hu : p.units = [p] := if_pos (by omega)
    have hq' : Char.ofNat p.val ≠ '"' := by
      intro he
      rw [he] at hchar
      exact hq hchar.symm
    have hb' : Char.ofNat p.val ≠ '\\' := by
      intro he
      rw [he] at hchar
      exact hb hchar.symm
    rw [List.singleton_append, scanUnits_plain hq' hb' (by omega), hchar, hu]
    rfl
  · exact scanUnits_flatMap_escapeUnit (fun u hu => p.units_lt u hu) cs

theorem scanUnits_flatMap (s : PyStr) (rest : List Char) :
    scanUnits (s.flatMap escapeChar ++ '"' :: rest) = .ok (s.flatMap CodePoint.units, rest) := by
  induction s with
  | nil => exact scanUnits_quote rest
  | cons p s ih =>
    rw [List.flatMap_cons, List.append_assoc, scanUnits_escapeChar, ih, Scan.append_ok,
      List.flatMap_cons]

/-- **A quoted string without surrogate pairs is scanned as the string.** -/
theorem scanString_quote {s : PyStr} (h : CodePoint.Joined s) (rest : List Char) :
    scanString (s.flatMap escapeChar ++ '"' :: rest) = .ok (s, rest) := by
  rw [scanString, scanUnits_flatMap]
  dsimp only
  rw [CodePoint.joinPairs_units h]

/-! ## Numbers -/

/-- What can stand behind a value: the end, or a character that closes it off. -/
def Ends (rest : List Char) : Prop := ∀ c ∈ rest.head?, c = ',' ∨ c = ']' ∨ c = '}'

theorem Ends.cons {c : Char} (h : c = ',' ∨ c = ']' ∨ c = '}') (rest : List Char) :
    Ends (c :: rest) := by
  intro d hd
  obtain rfl : c = d := by simpa using hd
  exact h

theorem Ends.not_digit {rest : List Char} (h : Ends rest) :
    ∀ c ∈ rest.head?, c.isDigit = false := by
  intro c hc
  rcases h c hc with rfl | rfl | rfl <;> decide

theorem digits_append {ds rest : List Char} (hd : ∀ c ∈ ds, c.isDigit = true)
    (hr : ∀ c ∈ rest.head?, c.isDigit = false) : digits (ds ++ rest) = (ds, rest) := by
  have hrest : rest.takeWhile Char.isDigit = [] ∧ rest.dropWhile Char.isDigit = rest := by
    cases rest with
    | nil => exact ⟨rfl, rfl⟩
    | cons c rest =>
      have hc : c.isDigit = false := hr c (by simp)
      simp [hc]
  unfold digits
  rw [List.span_eq_takeWhile_dropWhile, List.takeWhile_append_of_pos hd,
    List.dropWhile_append_of_pos hd, hrest.1, hrest.2, List.append_nil]

theorem scanFrac_ends {rest : List Char} (h : ∀ c ∈ rest.head?, c ≠ '.') :
    scanFrac rest = ([], rest) := by
  cases rest with
  | nil => rfl
  | cons c rest => exact if_neg fun hc => h c (by simp) hc.1

theorem scanExp_ends {rest : List Char} (h : Ends rest) : scanExp rest = ([], rest) := by
  cases rest with
  | nil => rfl
  | cons c rest =>
    have hc : ¬ (c = 'e' ∨ c = 'E') := by
      rcases h c (by simp) with rfl | rfl | rfl <;> decide
    exact if_neg fun hx => hc hx.1

theorem head_toDigits {n : Nat} (h : (Nat.toDigits 10 n).head? = some '0') : n = 0 := by
  induction n using Nat.strongRecOn with
  | ind n ih =>
    by_cases hn : n < 10
    · rw [Nat.toDigits_of_lt_base hn] at h
      simpa using h
    · rw [Nat.toDigits_of_base_le (by decide) (by omega),
        List.head?_append_of_ne_nil _ Nat.toDigits_ne_nil] at h
      have := ih (n / 10) (by omega) h
      omega

/-- A run of digits that is `0` or does not start with it. -/
theorem scanInt_append {int rest : List Char}
    (hi : int = ['0'] ∨ ∃ d ds, int = d :: ds ∧ d ≠ '0' ∧ ∀ c ∈ int, c.isDigit = true)
    (hr : ∀ c ∈ rest.head?, c.isDigit = false) : scanInt (int ++ rest) = some (int, rest) := by
  rcases hi with rfl | ⟨d, ds, rfl, hd, hall⟩
  · rfl
  · have hdig : d.isDigit = true := hall d List.mem_cons_self
    rw [List.cons_append, scanInt, if_neg hd, if_pos hdig, ← List.cons_append,
      digits_append hall hr]

theorem toDigits_int (n : Nat) : Nat.toDigits 10 n = ['0'] ∨
    ∃ d ds, Nat.toDigits 10 n = d :: ds ∧ d ≠ '0' ∧
      ∀ c ∈ Nat.toDigits 10 n, c.isDigit = true := by
  cases ht : Nat.toDigits 10 n with
  | nil => exact absurd ht Nat.toDigits_ne_nil
  | cons d ds =>
    by_cases hd : d = '0'
    · have hn : n = 0 := head_toDigits (by rw [ht, hd]; rfl)
      subst hn
      rw [Nat.toDigits_zero] at ht
      exact Or.inl ht.symm
    · refine Or.inr ⟨d, ds, rfl, hd, fun c hc => ?_⟩
      exact Nat.isDigit_of_mem_toDigits (by decide) (by decide) (ht ▸ hc)

/-- A sign is scanned, whatever digit comes behind it. -/
theorem scanSign_append {sign int rest : List Char} (hs : sign = [] ∨ sign = ['-'])
    (hi : ∀ c ∈ int.head?, c.isDigit = true) (hne : int ≠ []) :
    scanSign (sign ++ (int ++ rest)) = (sign, int ++ rest) := by
  rcases hs with rfl | rfl
  · cases int with
    | nil => exact absurd rfl hne
    | cons d ds =>
      have hd : d.isDigit = true := hi d (by simp)
      have hne' : d ≠ '-' := by
        rintro rfl
        exact absurd hd (by decide)
      simp [scanSign, hne']
  · rfl

private theorem int_head {int : List Char}
    (hi : int = ['0'] ∨ ∃ d ds, int = d :: ds ∧ d ≠ '0' ∧ ∀ c ∈ int, c.isDigit = true) :
    (∀ c ∈ int.head?, c.isDigit = true) ∧ int ≠ [] := by
  rcases hi with rfl | ⟨d, ds, rfl, -, hall⟩
  · refine ⟨fun c hc => ?_, List.cons_ne_nil '0' []⟩
    cases hc
    decide
  · refine ⟨fun c hc => hall c ?_, List.cons_ne_nil d ds⟩
    exact List.mem_of_mem_head? hc

theorem intValue_intText (n : Int) :
    intValue (if n < 0 then ['-'] else []) (Nat.toDigits 10 n.natAbs) = n := by
  unfold intValue
  by_cases hn : n < 0
  · rw [if_pos hn, if_neg (by decide), Nat.ofDigitChars_ten_toDigits]
    omega
  · rw [if_neg hn, if_pos rfl, Nat.ofDigitChars_ten_toDigits]
    omega

/-- An integer with no more digits than the decoder converts. -/
def ShortInt (n : Int) : Prop := (Nat.toDigits 10 n.natAbs).length ≤ maxStrDigits

theorem shortInt_of_lt {n : Int} {k : Nat} (hk : k ≤ maxStrDigits) (h : n.natAbs < 10 ^ k) :
    ShortInt n :=
  (Nat.length_toDigits_le_iff (by decide) (by decide)).mpr
    (h.trans_le (Nat.pow_le_pow_right (by decide) hk))

theorem scanNumber_intText (F : Format) {n : Int} (hn : ShortInt n) {rest : List Char}
    (h : Ends rest) : scanNumber F (intText n ++ rest) = .ok (.int n, rest) := by
  have hi := toDigits_int n.natAbs
  have hs : (if n < 0 then ['-'] else []) = [] ∨ (if n < 0 then ['-'] else []) = ['-'] := by
    split
    · exact Or.inr rfl
    · exact Or.inl rfl
  have hdot : ∀ c ∈ rest.head?, c ≠ '.' := by
    intro c hc
    rcases h c hc with rfl | rfl | rfl <;> decide
  unfold scanNumber intText
  rw [List.append_assoc, scanSign_append hs (int_head hi).1 (int_head hi).2]
  dsimp only
  rw [scanInt_append hi h.not_digit]
  dsimp only
  rw [scanFrac_ends hdot]
  dsimp only
  rw [scanExp_ends h]
  dsimp only
  have hshort : (Nat.toDigits 10 n.natAbs).length ≤ maxStrDigits := hn
  rw [if_pos (List.append_nil []), intOf, if_pos hshort, intValue_intText]
  rfl

namespace FloatToken

variable {cs rest : List Char}

theorem exp_head (t : FloatToken cs) (h : Ends rest) :
    ∀ c ∈ (t.exp ++ rest).head?, c.isDigit = false ∧ c ≠ '.' := by
  intro c hc
  rcases t.exp_ok with he | ⟨mark, s, ds, hm, -, -, he, -⟩
  · rw [he, List.nil_append] at hc
    rcases h c hc with rfl | rfl | rfl <;> decide
  · rw [he, List.cons_append, List.head?_cons] at hc
    obtain rfl : mark = c := by simpa using hc
    rcases hm with rfl | rfl <;> decide

theorem scanExp (t : FloatToken cs) (h : Ends rest) : scanExp (t.exp ++ rest) = (t.exp, rest) := by
  rcases t.exp_ok with he | ⟨mark, s, ds, hm, hs, hne, he, hall⟩
  · rw [he]
    exact scanExp_ends h
  · have hsign : scanExpSign (s ++ (ds ++ rest)) = (s, ds ++ rest) := by
      rcases hs with rfl | rfl | rfl
      · cases ds with
        | nil => exact absurd rfl hne
        | cons d ds =>
          have hd : d.isDigit = true := hall d List.mem_cons_self
          refine if_neg ?_
          rintro (rfl | rfl) <;> exact absurd hd (by decide)
      · rfl
      · rfl
    have hdig := digits_append hall h.not_digit
    rw [he, List.cons_append, List.append_assoc, Json.scanExp, hsign]
    dsimp only
    rw [hdig]
    exact if_pos ⟨hm, hne⟩

theorem frac_head (t : FloatToken cs) (h : Ends rest) :
    ∀ c ∈ (t.frac ++ (t.exp ++ rest)).head?, c.isDigit = false := by
  intro c hc
  rcases t.frac_ok with hf | ⟨ds, -, hf, -⟩
  · rw [hf, List.nil_append] at hc
    exact (t.exp_head h c hc).1
  · rw [hf, List.cons_append, List.head?_cons] at hc
    obtain rfl : '.' = c := by simpa using hc
    decide

theorem scanFrac (t : FloatToken cs) (h : Ends rest) :
    scanFrac (t.frac ++ (t.exp ++ rest)) = (t.frac, t.exp ++ rest) := by
  rcases t.frac_ok with hf | ⟨ds, hne, hf, hall⟩
  · rw [hf]
    exact scanFrac_ends fun c hc => (t.exp_head h c hc).2
  · have hdig := digits_append hall fun c hc => (t.exp_head h c hc).1
    rw [hf, List.cons_append, Json.scanFrac, hdig]
    exact if_pos ⟨rfl, hne⟩

end FloatToken

theorem scanNumber_repr (F : Format) {q : ℚ} (hq : F.isFloat q) {rest : List Char}
    (h : Ends rest) : scanNumber F (F.repr q ++ rest) = .ok (.float q, rest) := by
  obtain ⟨t⟩ := F.token q hq
  have hval := F.value_repr q hq
  rw [t.eq] at hval ⊢
  unfold scanNumber
  simp only [List.append_assoc] at hval ⊢
  rw [scanSign_append t.sign_ok (int_head t.int_ok).1 (int_head t.int_ok).2]
  dsimp only
  rw [scanInt_append t.int_ok (t.frac_head h)]
  dsimp only
  rw [t.scanFrac h]
  dsimp only
  rw [t.scanExp h]
  dsimp only
  rw [if_neg t.some_part, floatOf, hval]

/-! ## Values -/

/-- The values that both ends can carry: texts without surrogate pairs, integers that are not too
long, and objects that repeat no key. -/
inductive Encodable (F : Format) : JsonValue → Prop where
  | null : Encodable F .null
  | bool (b : Bool) : Encodable F (.bool b)
  | int (n : Int) (h : ShortInt n) : Encodable F (.int n)
  | float (q : ℚ) (h : F.isFloat q) : Encodable F (.float q)
  | nan : Encodable F .nan
  | infinity (negative : Bool) : Encodable F (.infinity negative)
  | str (s : PyStr) (h : CodePoint.Joined s) : Encodable F (.str s)
  | list (items : List JsonValue) (h : ∀ v ∈ items, Encodable F v) : Encodable F (.list items)
  | dict (items : List (PyStr × JsonValue)) (hkeys : (items.map (·.1)).Nodup)
      (hjoined : ∀ p ∈ items, CodePoint.Joined p.1) (h : ∀ p ∈ items, Encodable F p.2) :
      Encodable F (.dict items)

/-- A value that both ends can carry inside another one. -/
def Carried (F : Format) (v : JsonValue) : Prop := Encodable F v ∧ v.depth < F.room

/-- An object with one text. -/
theorem carried_field {F : Format} {key text : PyStr} (hkey : CodePoint.Joined key)
    (htext : CodePoint.Joined text) : Carried F (.dict [(key, .str text)]) := by
  have hroom := F.two_le_room
  refine ⟨.dict _ (List.nodup_singleton key) ?_ ?_, ?_⟩
  · intro p hp
    rwa [List.mem_singleton.mp hp]
  · intro p hp
    rw [List.mem_singleton.mp hp]
    exact .str text htext
  · simp only [JsonValue.depth, depthPairs]
    omega

/-- A character that is not taken for white space, a closing bracket or a byte order mark. -/
def Opens (c : Char) : Prop :=
  isWs c = false ∧ c ≠ ']' ∧ c ≠ '}' ∧ c ≠ Char.ofNat 0xFEFF

private theorem opens_digit {c : Char} (h : c.isDigit = true) :
    Opens c ∧ c ≠ '"' ∧ c ≠ '{' ∧ c ≠ '[' := by
  refine ⟨⟨?_, ?_, ?_, ?_⟩, ?_, ?_, ?_⟩
  · simp only [isWs, decide_eq_false_iff_not, not_or]
    refine ⟨?_, ?_, ?_, ?_⟩ <;> (rintro rfl; exact absurd h (by decide))
  all_goals (rintro rfl; exact absurd h (by decide))

/-- A numeral is a minus sign and a digit, or a digit, and then something. -/
def NumeralHead (cs : List Char) : Prop :=
  ∃ d tail, d.isDigit = true ∧ (cs = d :: tail ∨ cs = '-' :: d :: tail)

private theorem numeralHead_of {sign int tail : List Char} (hs : sign = [] ∨ sign = ['-'])
    (hi : int = ['0'] ∨ ∃ d ds, int = d :: ds ∧ d ≠ '0' ∧ ∀ c ∈ int, c.isDigit = true) :
    NumeralHead (sign ++ int ++ tail) := by
  obtain ⟨hd, hne⟩ := int_head hi
  cases int with
  | nil => exact absurd rfl hne
  | cons d ds =>
    refine ⟨d, ds ++ tail, hd d (by simp), ?_⟩
    rcases hs with rfl | rfl
    · exact Or.inl (by simp)
    · exact Or.inr (by simp)

theorem numeralHead_intText (n : Int) : NumeralHead (intText n) := by
  have h : NumeralHead ((if n < 0 then ['-'] else []) ++ Nat.toDigits 10 n.natAbs ++ []) :=
    numeralHead_of (by split <;> simp) (toDigits_int n.natAbs)
  rwa [List.append_nil] at h

theorem numeralHead_repr (F : Format) {q : ℚ} (hq : F.isFloat q) : NumeralHead (F.repr q) := by
  obtain ⟨t⟩ := F.token q hq
  rw [t.eq]
  exact numeralHead_of t.sign_ok t.int_ok

/-- No constant starts like a numeral. -/
theorem scanConstant_numeral {cs : List Char} (h : NumeralHead cs) (rest : List Char) :
    scanConstant (cs ++ rest) = none := by
  obtain ⟨d, tail, hd, rfl | rfl⟩ := h
  · have hne : d ≠ 'n' ∧ d ≠ 't' ∧ d ≠ 'f' ∧ d ≠ 'N' ∧ d ≠ 'I' ∧ d ≠ '-' := by
      refine ⟨?_, ?_, ?_, ?_, ?_, ?_⟩ <;> (rintro rfl; exact absurd hd (by decide))
    simp [scanConstant, constants, List.dropPrefix?, hne]
  · have hne : d ≠ 'I' := by
      rintro rfl
      exact absurd hd (by decide)
    simp [scanConstant, constants, List.dropPrefix?, hne]

/-- Scanning a numeral is scanning a number. -/
theorem scanOnce_numeral {F : Format} {cs rest : List Char} {v : JsonValue}
    (h : NumeralHead cs) (hn : scanNumber F (cs ++ rest) = .ok (v, rest)) (room n : Nat) :
    scanOnce F room (n + 1) (cs ++ rest) = .ok (v, rest) := by
  have hc := scanConstant_numeral h rest
  obtain ⟨d, tail, hd, rfl | rfl⟩ := h
  · obtain ⟨-, h1, h2, h3⟩ := opens_digit hd
    rw [List.cons_append] at hc hn ⊢
    rw [scanOnce, if_neg h1, if_neg h2, if_neg h3, hc]
    exact hn
  · simp only [List.cons_append] at hc hn ⊢
    rw [scanOnce, if_neg (by decide), if_neg (by decide), if_neg (by decide), hc]
    exact hn

section RoundTrip

variable {F : Format} {pad : List Char}

theorem dumps_head (pad : List Char) {v : JsonValue} (h : Encodable F v) :
    ∃ c cs, dumps F pad v = c :: cs ∧ Opens c := by
  have hnum : ∀ {cs : List Char}, NumeralHead cs → ∃ c tail, cs = c :: tail ∧ Opens c := by
    rintro cs ⟨d, tail, hd, rfl | rfl⟩
    · exact ⟨d, tail, rfl, (opens_digit hd).1⟩
    · exact ⟨'-', d :: tail, rfl, by unfold Opens; decide⟩
  have hopen : ∀ {c : Char} {cs : List Char}, Opens c → ∃ d tail, c :: cs = d :: tail ∧ Opens d :=
    fun hc => ⟨_, _, rfl, hc⟩
  cases h with
  | null | nan => exact hopen (by unfold Opens; decide)
  | bool b => cases b <;> exact hopen (by unfold Opens; decide)
  | infinity negative => cases negative <;> exact hopen (by unfold Opens; decide)
  | int n _ => exact hnum (numeralHead_intText n)
  | float q hq => exact hnum (numeralHead_repr F hq)
  | str s _ => exact hopen (by unfold Opens; decide)
  | list items _ => cases items <;> exact hopen (by unfold Opens; decide)
  | dict items _ _ _ => cases items <;> exact hopen (by unfold Opens; decide)

theorem skipWs_of_opens {c : Char} (cs : List Char) (h : isWs c = false) :
    skipWs (c :: cs) = c :: cs := by
  simp [skipWs, h]

theorem skipWs_pad {cs : List Char} (hp : ∀ c ∈ pad, isWs c = true) :
    skipWs (pad ++ cs) = skipWs cs :=
  List.dropWhile_append_of_pos hp

/-- The text of a value, behind any padding and before anything else. -/
theorem skipWs_dumps (hp : ∀ c ∈ pad, isWs c = true) {v : JsonValue} (h : Encodable F v)
    (rest : List Char) :
    skipWs (pad ++ (dumps F pad v ++ rest)) = dumps F pad v ++ rest ∧
      (skipWs (dumps F pad v ++ rest)) = dumps F pad v ++ rest ∧
      (dumps F pad v ++ rest).head? ≠ some ']' ∧ 1 ≤ (dumps F pad v).length := by
  obtain ⟨c, cs, he, hw, hc, -, -⟩ := dumps_head pad h
  rw [skipWs_pad hp, he, List.cons_append, skipWs_of_opens _ hw]
  refine ⟨rfl, rfl, ?_, ?_⟩
  · simpa using hc
  · simp

theorem dumpsItems_head (items : List JsonValue) (rest : List Char) :
    Ends (dumpsItems F pad items ++ rest) ∧ 1 ≤ (dumpsItems F pad items).length := by
  cases items with
  | nil => exact ⟨.cons (by decide) rest, by simp [dumpsItems]⟩
  | cons v vs => exact ⟨.cons (by decide) _, by simp [dumpsItems]⟩

theorem dumpsPairs_head (items : List (PyStr × JsonValue)) (rest : List Char) :
    Ends (dumpsPairs F pad items ++ rest) ∧ 1 ≤ (dumpsPairs F pad items).length := by
  cases items with
  | nil => exact ⟨.cons (by decide) rest, by simp [dumpsPairs]⟩
  | cons p ps =>
    obtain ⟨k, v⟩ := p
    exact ⟨.cons (by decide) _, by simp [dumpsPairs]⟩

/-- What the decoder does with the text of a value, if it can open as many brackets and is given
twice the length of the text to recurse. -/
def Scanned (F : Format) (pad : List Char) (v : JsonValue) : Prop :=
  ∀ room n rest, v.depth ≤ room → 2 * (dumps F pad v).length ≤ n → Ends rest →
    scanOnce F room n (dumps F pad v ++ rest) = .ok (v, rest)

theorem scanItems_dumps (hp : ∀ c ∈ pad, isWs c = true) {l : List JsonValue}
    (hs : ∀ v ∈ l, Encodable F v ∧ Scanned F pad v) {v : JsonValue} (hv : Encodable F v)
    (hscan : Scanned F pad v) {room n : Nat} (hroom : depthItems (v :: l) ≤ room)
    (hn : 2 * ((dumps F pad v).length + (dumpsItems F pad l).length) ≤ n) (rest : List Char) :
    scanItems F room n (dumps F pad v ++ (dumpsItems F pad l ++ rest)) = .ok (v :: l, rest) := by
  rw [depthItems] at hroom
  have hdepth : v.depth ≤ room := le_trans (le_max_left _ _) hroom
  induction l generalizing v n with
  | nil =>
    obtain ⟨m, rfl⟩ : ∃ m, n = m + 1 := ⟨n - 1, by simp [dumpsItems] at hn; omega⟩
    have hfirst := hscan room m (dumpsItems F pad [] ++ rest) hdepth
      (by simp [dumpsItems] at hn; omega) (dumpsItems_head [] rest).1
    rw [scanItems, hfirst]
    dsimp only [dumpsItems, List.cons_append, List.nil_append]
    rw [skipWs_of_opens _ (by decide), List.head?_cons, if_pos rfl, List.tail_cons]
  | cons w ws ih =>
    obtain ⟨hw, hwscan⟩ := hs w List.mem_cons_self
    have hlen : (dumpsItems F pad (w :: ws)).length =
        1 + pad.length + (dumps F pad w).length + (dumpsItems F pad ws).length := by
      simp [dumpsItems]
      omega
    obtain ⟨m, rfl⟩ : ∃ m, n = m + 1 := ⟨n - 1, by omega⟩
    have hfirst := hscan room m (dumpsItems F pad (w :: ws) ++ rest) hdepth (by omega)
      (dumpsItems_head (w :: ws) rest).1
    have htail := le_trans (le_max_right _ _) hroom
    rw [depthItems] at htail
    have hnext := ih (fun u hu => hs u (List.mem_cons_of_mem w hu)) hw hwscan (n := m) htail
      (by omega) (le_trans (le_max_left _ _) htail)
    rw [scanItems, hfirst]
    dsimp only [dumpsItems, List.cons_append]
    rw [skipWs_of_opens _ (by decide), List.head?_cons, if_neg (by decide), if_pos rfl,
      List.tail_cons]
    simp only [List.append_assoc]
    rw [(skipWs_dumps hp hw _).1, hnext]

/-- A key is scanned up to its colon, and the value behind the colon is the next thing. -/
private theorem skipWs_colon (cs : List Char) : skipWs (':' :: cs) = ':' :: cs :=
  skipWs_of_opens cs (by decide)

theorem scanPairs_dumps (hp : ∀ c ∈ pad, isWs c = true) {l : List (PyStr × JsonValue)}
    (hs : ∀ p ∈ l, CodePoint.Joined p.1 ∧ Encodable F p.2 ∧ Scanned F pad p.2) {k : PyStr}
    (hk : CodePoint.Joined k) {v : JsonValue} (hv : Encodable F v) (hscan : Scanned F pad v)
    {room n : Nat} (hroom : depthPairs ((k, v) :: l) ≤ room)
    (hn : 2 * ((dumps F pad v).length + (dumpsPairs F pad l).length) ≤ n) (rest : List Char) :
    scanPairs F room n (quote k ++ ':' :: (pad ++ (dumps F pad v ++ (dumpsPairs F pad l ++ rest)))) =
      .ok ((k, v) :: l, rest) := by
  rw [depthPairs] at hroom
  have hdepth : v.depth ≤ room := le_trans (le_max_left _ _) hroom
  induction l generalizing k v n with
  | nil =>
    obtain ⟨m, rfl⟩ : ∃ m, n = m + 1 := ⟨n - 1, by simp [dumpsPairs] at hn; omega⟩
    have hfirst := hscan room m (dumpsPairs F pad [] ++ rest) hdepth
      (by simp [dumpsPairs] at hn; omega) (dumpsPairs_head [] rest).1
    rw [scanPairs, quote, List.cons_append, List.head?_cons, if_neg (by simp), List.tail_cons,
      List.append_assoc, List.singleton_append, scanString_quote hk]
    dsimp only
    rw [skipWs_colon, List.head?_cons, if_neg (by simp), List.tail_cons, (skipWs_dumps hp hv _).1,
      hfirst]
    dsimp only [dumpsPairs, List.cons_append, List.nil_append]
    rw [skipWs_of_opens _ (by decide), List.head?_cons, if_pos rfl, List.tail_cons]
  | cons p ps ih =>
    obtain ⟨k', w⟩ := p
    obtain ⟨hk', hw, hwscan⟩ := hs (k', w) List.mem_cons_self
    have hlen : 1 + (dumps F pad w).length + (dumpsPairs F pad ps).length ≤
        (dumpsPairs F pad ((k', w) :: ps)).length := by
      simp [dumpsPairs]
      omega
    obtain ⟨m, rfl⟩ : ∃ m, n = m + 1 := ⟨n - 1, by omega⟩
    have hfirst := hscan room m (dumpsPairs F pad ((k', w) :: ps) ++ rest) hdepth (by omega)
      (dumpsPairs_head ((k', w) :: ps) rest).1
    have htail := le_trans (le_max_right _ _) hroom
    rw [depthPairs] at htail
    have hnext := ih (fun u hu => hs u (List.mem_cons_of_mem (k', w) hu)) hk' hw hwscan (n := m)
      htail (by dsimp only; omega) (le_trans (le_max_left _ _) htail)
    have hkey : ∀ cs, skipWs (pad ++ (quote k' ++ cs)) = quote k' ++ cs := by
      intro cs
      rw [skipWs_pad hp]
      exact skipWs_of_opens _ (by decide)
    rw [scanPairs, quote, List.cons_append, List.head?_cons, if_neg (by simp), List.tail_cons,
      List.append_assoc, List.singleton_append, scanString_quote hk]
    dsimp only
    rw [skipWs_colon, List.head?_cons, if_neg (by simp), List.tail_cons, (skipWs_dumps hp hv _).1,
      hfirst]
    dsimp only [dumpsPairs, List.cons_append]
    rw [skipWs_of_opens _ (by decide), List.head?_cons, if_neg (by decide), if_pos rfl,
      List.tail_cons]
    simp only [List.append_assoc, List.cons_append]
    rw [hkey, hnext]

private theorem dictOf_append (d ps : List (PyStr × JsonValue))
    (h : ((d ++ ps).map (·.1)).Nodup) :
    ps.foldl (fun d p =>
      if p.1 ∈ d.map (·.1) then d.map fun q => if q.1 = p.1 then p else q else d ++ [p]) d =
      d ++ ps := by
  induction ps generalizing d with
  | nil => simp
  | cons p ps ih =>
    have hp : p.1 ∉ d.map (·.1) := by
      intro hm
      rw [List.map_append, List.nodup_append] at h
      exact h.2.2 p.1 hm p.1 (List.mem_map_of_mem List.mem_cons_self) rfl
    rw [List.foldl_cons, if_neg hp, ih (d ++ [p]) (by simpa using h), List.append_assoc,
      List.singleton_append]

/-- Pairs without a repeated key are the dictionary they make. -/
theorem dictOf_of_nodup {ps : List (PyStr × JsonValue)} (h : (ps.map (·.1)).Nodup) :
    dictOf ps = ps :=
  dictOf_append [] ps h

/-- **The text of a value is scanned as the value.** -/
theorem scanned_of_encodable (hp : ∀ c ∈ pad, isWs c = true) {v : JsonValue}
    (h : Encodable F v) : Scanned F pad v := by
  induction h with
  | null | nan =>
    intro room n rest hroom hn _
    obtain ⟨m, rfl⟩ : ∃ m, n = m + 1 := ⟨n - 1, by simp [dumps] at hn; omega⟩
    simp [dumps, scanOnce, scanConstant, constants, List.dropPrefix?]
  | bool b | infinity b =>
    intro room n rest hroom hn _
    obtain ⟨m, rfl⟩ : ∃ m, n = m + 1 := ⟨n - 1, by cases b <;> simp [dumps] at hn <;> omega⟩
    cases b <;> simp [dumps, scanOnce, scanConstant, constants, List.dropPrefix?]
  | int k hk =>
    intro room n rest _ hn hrest
    have hlen := (skipWs_dumps hp (.int (F := F) k hk) []).2.2.2
    obtain ⟨m, rfl⟩ : ∃ m, n = m + 1 := ⟨n - 1, by omega⟩
    exact scanOnce_numeral (numeralHead_intText k) (scanNumber_intText F hk hrest) room m
  | float q hq =>
    intro room n rest _ hn hrest
    have hlen := (skipWs_dumps hp (.float q hq) []).2.2.2
    obtain ⟨m, rfl⟩ : ∃ m, n = m + 1 := ⟨n - 1, by omega⟩
    exact scanOnce_numeral (numeralHead_repr F hq) (scanNumber_repr F hq hrest) room m
  | str s hs =>
    intro room n rest hroom hn _
    obtain ⟨m, rfl⟩ : ∃ m, n = m + 1 := ⟨n - 1, by simp [dumps, quote] at hn; omega⟩
    rw [dumps, quote, List.cons_append, scanOnce, if_pos rfl, List.append_assoc,
      List.singleton_append, scanString_quote hs]
  | list items h ih =>
    intro room n rest hroom hn _
    obtain ⟨room, rfl⟩ : ∃ r, room = r + 1 := ⟨room - 1, by rw [JsonValue.depth] at hroom; omega⟩
    have hinner : depthItems items ≤ room := Nat.le_of_succ_le_succ hroom
    cases items with
    | nil =>
      obtain ⟨m, rfl⟩ : ∃ m, n = m + 1 := ⟨n - 1, by simp [dumps] at hn; omega⟩
      simp [dumps, scanOnce, skipWs, isWs]
    | cons v vs =>
      have hlen : (dumps F pad (.list (v :: vs))).length =
          1 + (dumps F pad v).length + (dumpsItems F pad vs).length := by
        simp [dumps]
        omega
      obtain ⟨m, rfl⟩ : ∃ m, n = m + 1 := ⟨n - 1, by omega⟩
      have hv := h v List.mem_cons_self
      have hitems := scanItems_dumps hp (l := vs)
        (fun u hu => ⟨h u (List.mem_cons_of_mem v hu), ih u (List.mem_cons_of_mem v hu)⟩) hv
        (ih v List.mem_cons_self) (n := m) hinner (by omega) rest
      obtain ⟨-, hskip, hhead, -⟩ := skipWs_dumps hp hv (dumpsItems F pad vs ++ rest)
      rw [dumps, List.cons_append, List.append_assoc, scanOnce, if_neg (by decide),
        if_neg (by decide), if_pos rfl, if_neg (Nat.succ_ne_zero room), hskip, if_neg hhead,
        Nat.add_sub_cancel, hitems]
  | dict items hkeys hjoined h ih =>
    intro room n rest hroom hn _
    obtain ⟨room, rfl⟩ : ∃ r, room = r + 1 := ⟨room - 1, by rw [JsonValue.depth] at hroom; omega⟩
    have hinner : depthPairs items ≤ room := Nat.le_of_succ_le_succ hroom
    cases items with
    | nil =>
      obtain ⟨m, rfl⟩ : ∃ m, n = m + 1 := ⟨n - 1, by simp [dumps] at hn; omega⟩
      simp [dumps, scanOnce, skipWs, isWs]
    | cons p ps =>
      obtain ⟨k, v⟩ := p
      have hlen : 1 + (dumps F pad v).length + (dumpsPairs F pad ps).length ≤
          (dumps F pad (.dict ((k, v) :: ps))).length := by
        simp [dumps]
        omega
      obtain ⟨m, rfl⟩ : ∃ m, n = m + 1 := ⟨n - 1, by omega⟩
      have hv := h (k, v) List.mem_cons_self
      have hpairs := scanPairs_dumps hp (l := ps)
        (fun u hu => ⟨hjoined u (List.mem_cons_of_mem (k, v) hu),
          h u (List.mem_cons_of_mem (k, v) hu), ih u (List.mem_cons_of_mem (k, v) hu)⟩)
        (hjoined (k, v) List.mem_cons_self) hv (ih (k, v) List.mem_cons_self) (n := m) hinner
        (by dsimp only; omega) rest
      have hskip : ∀ cs, skipWs (quote k ++ cs) = quote k ++ cs :=
        fun cs => skipWs_of_opens _ (by decide)
      have hhead : ∀ cs, (quote k ++ cs).head? ≠ some '}' := fun cs => by simp [quote]
      rw [dumps, List.cons_append, scanOnce, if_neg (by decide), if_pos rfl,
        if_neg (Nat.succ_ne_zero room), Nat.add_sub_cancel]
      simp only [List.append_assoc, List.cons_append]
      rw [hskip, if_neg (hhead _), hpairs]
      dsimp only
      rw [dictOf_of_nodup hkeys]

/-- **`json.loads` undoes `json.dumps`.** -/
theorem loads_dumps (hp : ∀ c ∈ pad, isWs c = true) {v : JsonValue} (h : Encodable F v)
    (hdepth : v.depth ≤ F.room) : loads F (dumps F pad v) = .ok v := by
  obtain ⟨c, cs, he, hw, -, -, hbom⟩ := dumps_head pad h
  have hscan := scanned_of_encodable hp h F.room (2 * (dumps F pad v).length + 1) [] hdepth
    (by omega) (fun c hc => by simp at hc)
  rw [List.append_nil] at hscan
  unfold loads
  rw [he] at hscan ⊢
  rw [if_neg (by simpa using hbom), skipWs_of_opens _ hw, hscan]
  rfl

end RoundTrip

end Serverless.Model.Json
