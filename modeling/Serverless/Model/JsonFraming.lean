import Mathlib.Data.List.Infix
import Serverless.Model.JsonRoundTrip

/-!
# Text in front of an object

The decoder rejects every text that has something visible in front of the text of an
object whose first key is `ok`. Scanning never stops inside that object without
finding what it needs there, except behind the quote of its first key.
-/
namespace Serverless.Model.Json

open Serverless.Library

variable {F : Format}

/-! ## What a scan that succeeds has done -/

/-- The ways in which a value is scanned. -/
inductive OnceOf (F : Format) (room n : Nat) : List Char → JsonValue × List Char → Prop where
  | str {cs rest : List Char} {s : PyStr} (h : scanString cs = .ok (s, rest)) :
      OnceOf F room n ('"' :: cs) (.str s, rest)
  | emptyDict {cs : List Char} (hr : room ≠ 0) (h : (skipWs cs).head? = some '}') :
      OnceOf F room n ('{' :: cs) (.dict [], (skipWs cs).tail)
  | dict {cs rest : List Char} {pairs : List (PyStr × JsonValue)}
      (hr : room ≠ 0) (hne : (skipWs cs).head? ≠ some '}')
      (h : scanPairs F (room - 1) n (skipWs cs) = .ok (pairs, rest)) :
      OnceOf F room n ('{' :: cs) (.dict (dictOf pairs), rest)
  | emptyList {cs : List Char} (hr : room ≠ 0) (h : (skipWs cs).head? = some ']') :
      OnceOf F room n ('[' :: cs) (.list [], (skipWs cs).tail)
  | list {cs rest : List Char} {items : List JsonValue}
      (hr : room ≠ 0) (hne : (skipWs cs).head? ≠ some ']')
      (h : scanItems F (room - 1) n (skipWs cs) = .ok (items, rest)) :
      OnceOf F room n ('[' :: cs) (.list items, rest)
  | constant {c : Char} {cs : List Char} {r : JsonValue × List Char} (hq : c ≠ '"') (hb : c ≠ '{')
      (hl : c ≠ '[') (h : scanConstant (c :: cs) = some r) : OnceOf F room n (c :: cs) r
  | number {c : Char} {cs : List Char} {r : JsonValue × List Char} (hq : c ≠ '"') (hb : c ≠ '{')
      (hl : c ≠ '[') (hc : scanConstant (c :: cs) = none) (h : scanNumber F (c :: cs) = .ok r) :
      OnceOf F room n (c :: cs) r

theorem scanOnce_ok {room n : Nat} {cs : List Char} {r : JsonValue × List Char} :
    scanOnce F room (n + 1) cs = .ok r ↔ OnceOf F room n cs r := by
  constructor
  · intro h
    cases cs with
    | nil =>
      rw [scanOnce] at h
      cases h
    | cons c cs =>
      rw [scanOnce] at h
      by_cases hq : c = '"'
      · subst hq
        rw [if_pos rfl] at h
        cases hs : scanString cs with
        | error e => rw [hs] at h; cases h
        | ok p => rw [hs] at h; cases h; exact .str hs
      rw [if_neg hq] at h
      by_cases hb : c = '{'
      · subst hb
        rw [if_pos rfl] at h
        by_cases hr : room = 0
        · rw [if_pos hr] at h; cases h
        rw [if_neg hr] at h
        by_cases he : (skipWs cs).head? = some '}'
        · rw [if_pos he] at h; cases h; exact .emptyDict hr he
        · rw [if_neg he] at h
          cases hs : scanPairs F (room - 1) n (skipWs cs) with
          | error e => rw [hs] at h; cases h
          | ok p => rw [hs] at h; cases h; exact .dict hr he hs
      rw [if_neg hb] at h
      by_cases hl : c = '['
      · subst hl
        rw [if_pos rfl] at h
        by_cases hr : room = 0
        · rw [if_pos hr] at h; cases h
        rw [if_neg hr] at h
        by_cases he : (skipWs cs).head? = some ']'
        · rw [if_pos he] at h; cases h; exact .emptyList hr he
        · rw [if_neg he] at h
          cases hs : scanItems F (room - 1) n (skipWs cs) with
          | error e => rw [hs] at h; cases h
          | ok p => rw [hs] at h; cases h; exact .list hr he hs
      rw [if_neg hl] at h
      cases hc : scanConstant (c :: cs) with
      | some p => rw [hc] at h; cases h; exact .constant hq hb hl hc
      | none =>
        rw [hc] at h
        exact .number hq hb hl hc h
  · intro h
    cases h with
    | str h => rw [scanOnce, if_pos rfl, h]
    | emptyDict hr h => rw [scanOnce, if_neg (by decide), if_pos rfl, if_neg hr, if_pos h]
    | dict hr hne h => rw [scanOnce, if_neg (by decide), if_pos rfl, if_neg hr, if_neg hne, h]
    | emptyList hr h =>
      rw [scanOnce, if_neg (by decide), if_neg (by decide), if_pos rfl, if_neg hr, if_pos h]
    | list hr hne h =>
      rw [scanOnce, if_neg (by decide), if_neg (by decide), if_pos rfl, if_neg hr, if_neg hne, h]
    | constant hq hb hl h => rw [scanOnce, if_neg hq, if_neg hb, if_neg hl, h]
    | number hq hb hl hc h =>
      rw [scanOnce, if_neg hq, if_neg hb, if_neg hl, hc]
      exact h

/-- The ways in which the items of a list are scanned. -/
inductive ItemsOf (F : Format) (room n : Nat) (cs : List Char) :
    List JsonValue × List Char → Prop where
  | last {v : JsonValue} {mid : List Char} (hv : scanOnce F room n cs = .ok (v, mid))
      (he : (skipWs mid).head? = some ']') : ItemsOf F room n cs ([v], (skipWs mid).tail)
  | more {v : JsonValue} {vs : List JsonValue} {mid rest : List Char}
      (hv : scanOnce F room n cs = .ok (v, mid)) (he : (skipWs mid).head? = some ',')
      (hs : scanItems F room n (skipWs (skipWs mid).tail) = .ok (vs, rest)) :
      ItemsOf F room n cs (v :: vs, rest)

theorem scanItems_ok {room n : Nat} {cs : List Char} {r : List JsonValue × List Char} :
    scanItems F room (n + 1) cs = .ok r ↔ ItemsOf F room n cs r := by
  constructor
  · intro h
    rw [scanItems] at h
    cases hv : scanOnce F room n cs with
    | error e => rw [hv] at h; cases h
    | ok p =>
      rw [hv] at h
      dsimp only at h
      by_cases he : (skipWs p.2).head? = some ']'
      · rw [if_pos he] at h; cases h; exact .last hv he
      rw [if_neg he] at h
      by_cases hm : (skipWs p.2).head? = some ','
      · rw [if_pos hm] at h
        cases hs : scanItems F room n (skipWs (skipWs p.2).tail) with
        | error e => rw [hs] at h; cases h
        | ok q => rw [hs] at h; cases h; exact .more hv hm hs
      · rw [if_neg hm] at h; cases h
  · intro h
    cases h with
    | last hv he =>
      rw [scanItems, hv]
      dsimp only
      rw [if_pos he]
    | more hv he hs =>
      rw [scanItems, hv]
      dsimp only
      rw [if_neg (by rw [he]; decide), if_pos he, hs]

/-- The ways in which the pairs of an object are scanned. -/
inductive PairsOf (F : Format) (room n : Nat) (cs : List Char) :
    List (PyStr × JsonValue) × List Char → Prop where
  | last {k : PyStr} {v : JsonValue} {behind mid : List Char} (hq : cs.head? = some '"')
      (hk : scanString cs.tail = .ok (k, behind)) (hc : (skipWs behind).head? = some ':')
      (hv : scanOnce F room n (skipWs (skipWs behind).tail) = .ok (v, mid))
      (he : (skipWs mid).head? = some '}') : PairsOf F room n cs ([(k, v)], (skipWs mid).tail)
  | more {k : PyStr} {v : JsonValue} {behind mid rest : List Char}
      {ps : List (PyStr × JsonValue)} (hq : cs.head? = some '"')
      (hk : scanString cs.tail = .ok (k, behind)) (hc : (skipWs behind).head? = some ':')
      (hv : scanOnce F room n (skipWs (skipWs behind).tail) = .ok (v, mid))
      (he : (skipWs mid).head? = some ',')
      (hs : scanPairs F room n (skipWs (skipWs mid).tail) = .ok (ps, rest)) :
      PairsOf F room n cs ((k, v) :: ps, rest)

theorem scanPairs_ok {room n : Nat} {cs : List Char} {r : List (PyStr × JsonValue) × List Char} :
    scanPairs F room (n + 1) cs = .ok r ↔ PairsOf F room n cs r := by
  constructor
  · intro h
    rw [scanPairs] at h
    by_cases hq : cs.head? = some '"'
    · rw [if_neg (not_not_intro hq)] at h
      cases hk : scanString cs.tail with
      | error e => rw [hk] at h; cases h
      | ok p =>
        rw [hk] at h
        dsimp only at h
        by_cases hc : (skipWs p.2).head? = some ':'
        · rw [if_neg (not_not_intro hc)] at h
          cases hv : scanOnce F room n (skipWs (skipWs p.2).tail) with
          | error e => rw [hv] at h; cases h
          | ok q =>
            rw [hv] at h
            dsimp only at h
            by_cases he : (skipWs q.2).head? = some '}'
            · rw [if_pos he] at h; cases h; exact .last hq hk hc hv he
            rw [if_neg he] at h
            by_cases hm : (skipWs q.2).head? = some ','
            · rw [if_pos hm] at h
              cases hs : scanPairs F room n (skipWs (skipWs q.2).tail) with
              | error e => rw [hs] at h; cases h
              | ok t => rw [hs] at h; cases h; exact .more hq hk hc hv hm hs
            · rw [if_neg hm] at h; cases h
        · rw [if_pos hc] at h; cases h
    · rw [if_pos hq] at h; cases h
  · intro h
    cases h with
    | last hq hk hc hv he =>
      rw [scanPairs, if_neg (not_not_intro hq), hk]
      dsimp only
      rw [if_neg (not_not_intro hc), hv]
      dsimp only
      rw [if_pos he]
    | more hq hk hc hv he hs =>
      rw [scanPairs, if_neg (not_not_intro hq), hk]
      dsimp only
      rw [if_neg (not_not_intro hc), hv]
      dsimp only
      rw [if_neg (by rw [he]; decide), if_pos he, hs]

/-- More room, for brackets and to recurse, changes no result. -/
theorem scan_succ (F : Format) (n : Nat) :
    (∀ {room more cs r}, room ≤ more → scanOnce F room n cs = .ok r →
      scanOnce F more (n + 1) cs = .ok r) ∧
    (∀ {room more cs r}, room ≤ more → scanItems F room n cs = .ok r →
      scanItems F more (n + 1) cs = .ok r) ∧
    (∀ {room more cs r}, room ≤ more → scanPairs F room n cs = .ok r →
      scanPairs F more (n + 1) cs = .ok r) := by
  induction n with
  | zero =>
    refine ⟨fun _ h => ?_, fun _ h => ?_, fun _ h => ?_⟩
    · rw [scanOnce] at h; cases h
    · rw [scanItems] at h; cases h
    · rw [scanPairs] at h; cases h
  | succ n ih =>
    obtain ⟨hOnce, hItems, hPairs⟩ := ih
    refine ⟨fun hle h => ?_, fun hle h => ?_, fun hle h => ?_⟩
    · apply scanOnce_ok.mpr
      cases scanOnce_ok.mp h with
      | str hs => exact .str hs
      | emptyDict hr he => exact .emptyDict (by omega) he
      | dict hr hne hs => exact .dict (by omega) hne (hPairs (by omega) hs)
      | emptyList hr he => exact .emptyList (by omega) he
      | list hr hne hs => exact .list (by omega) hne (hItems (by omega) hs)
      | constant hq hb hl hs => exact .constant hq hb hl hs
      | number hq hb hl hc hs => exact .number hq hb hl hc hs
    · apply scanItems_ok.mpr
      cases scanItems_ok.mp h with
      | last hv he => exact .last (hOnce hle hv) he
      | more hv he hs => exact .more (hOnce hle hv) he (hItems hle hs)
    · apply scanPairs_ok.mpr
      cases scanPairs_ok.mp h with
      | last hq hk hc hv he => exact .last hq hk hc (hOnce hle hv) he
      | more hq hk hc hv he hs => exact .more hq hk hc (hOnce hle hv) he (hPairs hle hs)

/-- What is scanned does not depend on how much room there is. -/
theorem scanOnce_agree {room more m n : Nat} {cs : List Char} {r r' : JsonValue × List Char}
    (hroom : room ≤ more) (hmn : m < n) (h : scanOnce F room m cs = .ok r)
    (h' : scanOnce F more n cs = .ok r') : r = r' := by
  have hup : scanOnce F more n cs = .ok r := by
    clear h'
    induction hmn with
    | refl => exact (scan_succ F m).1 hroom h
    | step _ ih => exact (scan_succ F _).1 le_rfl ih
  rw [hup] at h'
  exact Except.ok.inj h'

/-! ## Where a scan ends -/

/-- The start of an object whose first key begins with `o`. -/
def object (X : List Char) : List Char := '{' :: '"' :: 'o' :: X

variable {X : List Char}

theorem suffix_tail {c : Char} {cs : List Char} (h : object X <:+ c :: cs) (hc : c ≠ '{') :
    object X <:+ cs := by
  refine (List.suffix_cons_iff.mp h).resolve_left fun he => hc ?_
  rw [object, List.cons.injEq] at he
  exact he.1.symm

theorem suffix_append {l cs : List Char} (h : object X <:+ l ++ cs)
    (hf : '{' ∉ l) : object X <:+ cs := by
  induction l with
  | nil => exact h
  | cons c l ih =>
    simp only [List.mem_cons, not_or] at hf
    exact ih (suffix_tail h (Ne.symm hf.1)) hf.2

theorem suffix_dropWhile {p : Char → Bool} (hp : p '{' = false) {cs : List Char}
    (h : object X <:+ cs) : object X <:+ cs.dropWhile p := by
  induction cs with
  | nil => exact h
  | cons c cs ih =>
    by_cases hc : p c = true
    · rw [List.dropWhile_cons_of_pos hc]
      refine ih (suffix_tail h ?_)
      rintro rfl
      rw [hp] at hc
      cases hc
    · rwa [List.dropWhile_cons_of_neg hc]

theorem suffix_skipWs {cs : List Char} (h : object X <:+ cs) : object X <:+ skipWs cs :=
  suffix_dropWhile (by decide) h

/-- A known first character other than the brace of the object can be taken off. -/
theorem suffix_tail_of_head {c : Char} {cs : List Char} (h : object X <:+ cs)
    (hc : cs.head? = some c) (hne : c ≠ '{') : object X <:+ cs.tail := by
  obtain ⟨cs', rfl⟩ := List.head?_eq_some_iff.mp hc
  exact suffix_tail h hne

theorem suffix_digits {cs : List Char} (h : object X <:+ cs) : object X <:+ (digits cs).2 := by
  rw [digits, List.span_eq_takeWhile_dropWhile]
  exact suffix_dropWhile (by decide) h

theorem suffix_scanSign {cs : List Char} (h : object X <:+ cs) : object X <:+ (scanSign cs).2 := by
  cases cs with
  | nil => exact h
  | cons c cs =>
    by_cases hc : c = '-'
    · rw [scanSign, if_pos hc]
      exact suffix_tail h (by rw [hc]; decide)
    · rwa [scanSign, if_neg hc]

theorem suffix_scanInt {cs int rest : List Char} (h : object X <:+ cs)
    (hs : scanInt cs = some (int, rest)) : object X <:+ rest := by
  cases cs with
  | nil => cases hs
  | cons c cs =>
    by_cases hc : c = '0'
    · rw [scanInt, if_pos hc] at hs
      cases hs
      exact suffix_tail h (by rw [hc]; decide)
    rw [scanInt, if_neg hc] at hs
    by_cases hd : c.isDigit = true
    · rw [if_pos hd] at hs
      have hsuf := suffix_digits h
      rw [Option.some.injEq] at hs
      rwa [hs] at hsuf
    · rw [if_neg hd] at hs
      cases hs

theorem suffix_scanFrac {cs : List Char} (h : object X <:+ cs) : object X <:+ (scanFrac cs).2 := by
  cases cs with
  | nil => exact h
  | cons c cs =>
    by_cases hc : c = '.' ∧ (digits cs).1 ≠ []
    · rw [scanFrac, if_pos hc]
      exact suffix_digits (suffix_tail h (by rw [hc.1]; decide))
    · rwa [scanFrac, if_neg hc]

theorem suffix_scanExpSign {cs : List Char} (h : object X <:+ cs) :
    object X <:+ (scanExpSign cs).2 := by
  cases cs with
  | nil => exact h
  | cons c cs =>
    by_cases hc : c = '+' ∨ c = '-'
    · rw [scanExpSign, if_pos hc]
      refine suffix_tail h ?_
      rcases hc with rfl | rfl <;> decide
    · rwa [scanExpSign, if_neg hc]

theorem suffix_scanExp {cs : List Char} (h : object X <:+ cs) : object X <:+ (scanExp cs).2 := by
  cases cs with
  | nil => exact h
  | cons c cs =>
    rw [scanExp]
    dsimp only
    by_cases hc : (c = 'e' ∨ c = 'E') ∧ (digits (scanExpSign cs).2).1 ≠ []
    · rw [if_pos hc]
      refine suffix_digits (suffix_scanExpSign (suffix_tail h ?_))
      rcases hc.1 with rfl | rfl <;> decide
    · rwa [if_neg hc]

theorem suffix_scanNumber {cs rest : List Char} {v : JsonValue} (h : object X <:+ cs)
    (hs : scanNumber F cs = .ok (v, rest)) : object X <:+ rest := by
  unfold scanNumber at hs
  dsimp only at hs
  cases hi : scanInt (scanSign cs).2 with
  | none => rw [hi] at hs; cases hs
  | some p =>
    rw [hi] at hs
    dsimp only at hs
    have hsuf := suffix_scanExp (suffix_scanFrac (suffix_scanInt (suffix_scanSign h) hi))
    split at hs
    · unfold intOf at hs
      split at hs
      · cases hs
        exact hsuf
      · cases hs
    · cases hs
      exact hsuf

theorem suffix_scanConstant {cs rest : List Char} {v : JsonValue} (h : object X <:+ cs)
    (hs : scanConstant cs = some (v, rest)) : object X <:+ rest := by
  obtain ⟨p, hp, hm⟩ := List.exists_of_findSome?_eq_some hs
  obtain ⟨rest', hd, he⟩ := Option.map_eq_some_iff.mp hm
  cases he
  obtain ⟨front, rfl, hf⟩ := List.dropPrefix?_eq_some_iff.mp hd
  refine suffix_append h ?_
  rw [beq_iff_eq.mp hf]
  have hall : ∀ q ∈ constants, '{' ∉ q.1 := by
    simp [constants]
  exact hall p hp

theorem Scan.cons_ok {u : CodePoint} {r : Scan PyStr} {us : PyStr} {rest : List Char}
    (h : Scan.cons u r = .ok (us, rest)) : ∃ vs, r = .ok (vs, rest) := by
  cases r with
  | error e => cases h
  | ok p =>
    cases h
    exact ⟨p.1, rfl⟩

private theorem not_mem_of_hexNumber {start n : Nat} {cs : List Char}
    (h : Text.hexNumber start cs = some n) : '{' ∉ cs := by
  induction cs generalizing start with
  | nil => simp
  | cons c cs ih =>
    obtain ⟨d, hd, hrest⟩ := Option.bind_eq_some_iff.mp h
    rw [List.mem_cons, not_or]
    refine ⟨?_, ih hrest⟩
    rintro rfl
    have hnone : Text.hexValue '{' = none := by decide
    rw [hnone] at hd
    cases hd

/-- A string ends before the object or with the quote of its first key. -/
theorem suffix_scanUnits {cs rest : List Char} {us : PyStr} (h : object X <:+ cs)
    (hs : scanUnits cs = .ok (us, rest)) : object X <:+ rest ∨ rest = 'o' :: X := by
  fun_induction scanUnits cs generalizing us rest with
  | case1 | case3 | case5 | case6 | case8 | case9 => cases hs
  | case2 cs =>
    cases hs
    exact Or.inl (suffix_tail h (by decide))
  | case4 h₁ h₂ h₃ h₄ cs u hx _ ih =>
    obtain ⟨vs, hvs⟩ := Scan.cons_ok hs
    have htail := suffix_tail (suffix_tail h (by decide)) (by decide)
    exact ih (suffix_append (l := [h₁, h₂, h₃, h₄]) htail (not_mem_of_hexNumber hx)) hvs
  | case7 e cs he u hx _ ih =>
    obtain ⟨vs, hvs⟩ := Scan.cons_ok hs
    refine ih (suffix_tail (suffix_tail h (by decide)) ?_) hvs
    rintro rfl
    have hnone : simpleEscape '{' = none := by decide
    rw [hnone] at hx
    cases hx
  | case10 c cs hq hb hc ih =>
    obtain ⟨vs, hvs⟩ := Scan.cons_ok hs
    rcases List.suffix_cons_iff.mp h with he | htail
    · -- the brace of the object is read as a character, and the string ends behind it
      rw [object, List.cons.injEq] at he
      rw [← he.2, scanUnits.eq_def] at hvs
      dsimp only at hvs
      rw [if_pos rfl] at hvs
      cases hvs
      exact Or.inr rfl
    · exact ih htail hvs

theorem suffix_scanString {cs rest : List Char} {s : PyStr} (h : object X <:+ cs)
    (hs : scanString cs = .ok (s, rest)) : object X <:+ rest ∨ rest = 'o' :: X := by
  unfold scanString at hs
  cases hu : scanUnits cs with
  | error e => rw [hu] at hs; cases hs
  | ok p =>
    rw [hu] at hs
    cases hs
    exact suffix_scanUnits h hu

private theorem skipWs_o : skipWs ('o' :: X) = 'o' :: X := skipWs_of_opens X (by decide)

/-- **Where scans end.** In a text that ends with the object, a value ends before it, behind
the quote of its first key, or is the object; items and pairs always end before it. -/
theorem suffix_scan {v₀ : JsonValue} (hobj : Encodable F v₀) {pad : List Char}
    (hp : ∀ c ∈ pad, isWs c = true) (hD : dumps F pad v₀ = object X) (n : Nat) :
    (∀ {room cs v rest}, object X <:+ cs → scanOnce F room n cs = .ok (v, rest) →
      object X <:+ rest ∨ rest = 'o' :: X ∨ cs = object X ∧ rest = []) ∧
    (∀ {room cs vs rest}, object X <:+ cs → scanItems F room n cs = .ok (vs, rest) →
      object X <:+ rest) ∧
    (∀ {room cs ps rest}, object X <:+ cs → scanPairs F room n cs = .ok (ps, rest) →
      object X <:+ rest) := by
  induction n with
  | zero =>
    refine ⟨fun _ h => ?_, fun _ h => ?_, fun _ h => ?_⟩
    · rw [scanOnce] at h; cases h
    · rw [scanItems] at h; cases h
    · rw [scanPairs] at h; cases h
  | succ n ih =>
    obtain ⟨hOnce, hItems, hPairs⟩ := ih
    -- behind a value there has to be a separator, which neither `o` nor the end is
    have hsep : ∀ {room cs v mid c}, object X <:+ cs → scanOnce F room n cs = .ok (v, mid) →
        (skipWs mid).head? = some c → c ≠ 'o' → object X <:+ skipWs mid := by
      intro room cs v mid c hcs hv hc ho
      rcases hOnce hcs hv with hsuf | rfl | ⟨-, rfl⟩
      · exact suffix_skipWs hsuf
      · rw [skipWs_o, List.head?_cons, Option.some.injEq] at hc
        exact absurd hc.symm ho
      · cases hc
    refine ⟨fun {room cs v rest} hcs h => ?_, fun {room cs vs rest} hcs h => ?_,
      fun {room cs ps rest} hcs h => ?_⟩
    · by_cases hcase : cs = object X
      · -- the object itself: any room that suffices gives the result that ample room gives
        have hfull := scanned_of_encodable hp hobj (max room v₀.depth)
          (n + 2 + 2 * (dumps F pad v₀).length) [] (le_max_right _ _) (by omega)
          (fun c hc => by simp at hc)
        rw [List.append_nil, hD, ← hcase] at hfull
        cases scanOnce_agree (le_max_left _ _) (by omega) h hfull
        exact Or.inr (Or.inr ⟨hcase, rfl⟩)
      cases scanOnce_ok.mp h with
      | str hs =>
        rcases suffix_scanString (suffix_tail hcs (by decide)) hs with hsuf | he
        · exact Or.inl hsuf
        · exact Or.inr (Or.inl he)
      | emptyDict _ he =>
        have htail := (List.suffix_cons_iff.mp hcs).resolve_left (Ne.symm hcase)
        exact Or.inl (suffix_tail_of_head (suffix_skipWs htail) he (by decide))
      | dict _ _ hs =>
        have htail := (List.suffix_cons_iff.mp hcs).resolve_left (Ne.symm hcase)
        exact Or.inl (hPairs (suffix_skipWs htail) hs)
      | emptyList _ he =>
        have htail := suffix_skipWs (suffix_tail hcs (by decide))
        exact Or.inl (suffix_tail_of_head htail he (by decide))
      | list _ _ hs => exact Or.inl (hItems (suffix_skipWs (suffix_tail hcs (by decide))) hs)
      | constant _ _ _ hs => exact Or.inl (suffix_scanConstant hcs hs)
      | number _ _ _ _ hs => exact Or.inl (suffix_scanNumber hcs hs)
    · cases scanItems_ok.mp h with
      | last hv he => exact suffix_tail_of_head (hsep hcs hv he (by decide)) he (by decide)
      | more hv he hs =>
        have htail := suffix_tail_of_head (hsep hcs hv he (by decide)) he (by decide)
        exact hItems (suffix_skipWs htail) hs
    · -- the colon behind a key is not the `o` either
      have hkey : ∀ {k behind}, cs.head? = some '"' → scanString cs.tail = .ok (k, behind) →
          (skipWs behind).head? = some ':' → object X <:+ skipWs (skipWs behind).tail := by
        intro k behind hq hk hc
        rcases suffix_scanString (suffix_tail_of_head hcs hq (by decide)) hk with hsuf | rfl
        · exact suffix_skipWs (suffix_tail_of_head (suffix_skipWs hsuf) hc (by decide))
        · rw [skipWs_o, List.head?_cons] at hc
          exact absurd hc (by decide)
      cases scanPairs_ok.mp h with
      | last hq hk hc hv he =>
        exact suffix_tail_of_head (hsep (hkey hq hk hc) hv he (by decide)) he (by decide)
      | more hq hk hc hv he hs =>
        have htail := suffix_tail_of_head (hsep (hkey hq hk hc) hv he (by decide)) he (by decide)
        exact hPairs (suffix_skipWs htail) hs

/-- **Nothing visible may stand in front of the object.** -/
theorem loads_front {v₀ : JsonValue} (hobj : Encodable F v₀) {pad : List Char}
    (hp : ∀ c ∈ pad, isWs c = true) (hD : dumps F pad v₀ = object X) {c : Char}
    (hc : isWs c = false) (front : List Char) :
    ∃ e, loads F (c :: front ++ dumps F pad v₀) = .error e := by
  rw [hD]
  unfold loads
  split
  · exact ⟨_, rfl⟩
  rw [List.cons_append, skipWs_of_opens _ hc]
  have hsuf : object X <:+ c :: (front ++ object X) := ⟨c :: front, rfl⟩
  cases hs : scanOnce F F.room (2 * (c :: (front ++ object X)).length + 1)
    (c :: (front ++ object X)) with
  | error e => exact ⟨e, rfl⟩
  | ok p =>
    dsimp only
    have hvisible : skipWs p.2 ≠ [] := by
      rcases (suffix_scan hobj hp hD _).1 hsuf hs with h | h | ⟨h, -⟩
      · intro he
        have h' := suffix_skipWs h
        rw [he] at h'
        exact absurd (List.suffix_nil.mp h') (List.cons_ne_nil _ _)
      · rw [h, skipWs_o]
        exact List.cons_ne_nil _ _
      · have hlen := congrArg List.length h
        simp only [List.length_cons, List.length_append] at hlen
        omega
    rw [if_neg hvisible]
    exact ⟨_, rfl⟩

/-- An object ends in its bracket. -/
theorem dumpsPairs_getLast (F : Format) (pad : List Char) (items : List (PyStr × JsonValue)) :
    (dumpsPairs F pad items).getLast? = some '}' := by
  induction items with
  | nil => rfl
  | cons p items ih =>
    obtain ⟨k, v⟩ := p
    rw [dumpsPairs]
    simp only [← List.append_assoc, ← List.cons_append]
    rw [List.getLast?_append, ih]
    rfl

theorem dumps_dict_getLast (F : Format) (pad : List Char) (items : List (PyStr × JsonValue)) :
    (dumps F pad (.dict items)).getLast? = some '}' := by
  cases items with
  | nil => rfl
  | cons p items =>
    obtain ⟨k, v⟩ := p
    rw [dumps]
    simp only [← List.append_assoc, ← List.cons_append]
    rw [List.getLast?_append, dumpsPairs_getLast]
    rfl

end Serverless.Model.Json
