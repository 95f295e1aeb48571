import Serverless.Model.InvocationState
import Serverless.Model.JsonFraming
import Serverless.Model.Runtime

/-!
# What the columns of a record can hold

The columns of `backend/app/models/invocation.py` that `mark_finished` writes, and the
values that PostgreSQL takes in them: texts of bounded length, no text with a NUL or a
surrogate, four byte integers, and JSONB without a NUL, without a lone surrogate, without the
floats that JSON does not have and not nested deeper than `json.dumps` can write where the row is
flushed. A commit with another value is refused and leaves nothing behind.
-/
namespace Serverless.Model

open Serverless.Library

/-- A `Text` column; a surrogate has no encoding in UTF-8. -/
def FitsText (t : PyStr) : Prop := ∀ p ∈ t, p ≠ 0 ∧ ¬ CodePoint.IsSurrogate p

instance (t : PyStr) : Decidable (FitsText t) := List.decidableBAll _ t

/-- A `String(n)` column. -/
def FitsVarchar (n : Nat) (t : PyStr) : Prop := t.length ≤ n ∧ FitsText t

instance (n : Nat) (t : PyStr) : Decidable (FitsVarchar n t) := inferInstanceAs (Decidable (_ ∧ _))

/-- A string or a key of a `JSONB` column, which reads `\uXXXX` escapes in pairs. -/
def FitsJsonText (t : PyStr) : Prop := FitsText (CodePoint.joinPairs t)

instance (t : PyStr) : Decidable (FitsJsonText t) := inferInstanceAs (Decidable (FitsText _))

/- The values of a `JSONB` column. -/
mutual

def JsonValue.fitsJsonb : JsonValue → Bool
  | .null | .bool _ | .int _ | .float _ => true
  | .nan | .infinity _ => false
  | .str s => decide (FitsJsonText s)
  | .list items => fitItems items
  | .dict items => fitPairs items

def fitItems : List JsonValue → Bool
  | [] => true
  | v :: items => v.fitsJsonb && fitItems items

def fitPairs : List (PyStr × JsonValue) → Bool
  | [] => true
  | (k, v) :: items => decide (FitsJsonText k) && v.fitsJsonb && fitPairs items

end

/-- What can be flushed to a `JSONB` column, with a stack on which `json.dumps` can write so many
levels. -/
def FitsJsonb (levels : Nat) (v : JsonValue) : Prop := v.fitsJsonb = true ∧ v.depth ≤ levels

instance (levels : Nat) (v : JsonValue) : Decidable (FitsJsonb levels v) :=
  inferInstanceAs (Decidable (_ ∧ _))

/-- The columns that `mark_finished` writes of a result, on the invocation and on the attempt. -/
structure FitsColumns (levels : Nat) (result : RuntimeExecutionResult) (durationMs : Int) :
    Prop where
  resultInline : FitsJsonb levels result.resultInline
  resultRef : ∀ t ∈ result.resultRef, FitsVarchar 1024 t
  errorType : ∀ t ∈ result.errorType, FitsVarchar 255 t
  errorMessage : ∀ t ∈ result.errorMessage, FitsText t
  logsRef : ∀ t ∈ result.logsRef, FitsVarchar 1024 t
  containerId : ∀ t ∈ result.containerId, FitsVarchar 255 t
  exitCode : ∀ n ∈ result.exitCode, FitsInteger n
  durationMs : FitsInteger durationMs

theorem fitsColumns_iff {levels : Nat} {result : RuntimeExecutionResult} {durationMs : Int} :
    FitsColumns levels result durationMs ↔ FitsJsonb levels result.resultInline ∧
      (∀ t ∈ result.resultRef, FitsVarchar 1024 t) ∧ (∀ t ∈ result.errorType, FitsVarchar 255 t) ∧
      (∀ t ∈ result.errorMessage, FitsText t) ∧ (∀ t ∈ result.logsRef, FitsVarchar 1024 t) ∧
      (∀ t ∈ result.containerId, FitsVarchar 255 t) ∧ (∀ n ∈ result.exitCode, FitsInteger n) ∧
      FitsInteger durationMs :=
  ⟨fun ⟨h₁, h₂, h₃, h₄, h₅, h₆, h₇, h₈⟩ => ⟨h₁, h₂, h₃, h₄, h₅, h₆, h₇, h₈⟩,
    fun ⟨h₁, h₂, h₃, h₄, h₅, h₆, h₇, h₈⟩ => ⟨h₁, h₂, h₃, h₄, h₅, h₆, h₇, h₈⟩⟩

instance (levels : Nat) (result : RuntimeExecutionResult) (durationMs : Int) :
    Decidable (FitsColumns levels result durationMs) := decidable_of_iff _ fitsColumns_iff.symm

theorem fitsJsonb_null (levels : Nat) : FitsJsonb levels .null := ⟨rfl, Nat.zero_le levels⟩

/-- What `mark_finished` writes to `duration_ms`. -/
def recordedDuration (attempt : InvocationAttempt) (result : RuntimeExecutionResult) (now : Time) :
    Int :=
  result.durationMs.getD (durationMs attempt.startedAt now)

inductive RecordError where
  | refused
  | raised (error : CompleteError)

/-- `mark_finished` with the commit at its end, for an attempt object that the session holds. -/
def commitFinished (levels : Nat) (db : Database) (invocationId : UUID) (attempt : InvocationAttempt)
    (result : RuntimeExecutionResult) (decision : RetryDecision) (dispatchId : UUID) (now : Time) :
    Database × Except RecordError InvocationAttempt :=
  match markFinished db invocationId attempt.id (some attempt) result decision dispatchId now with
  | (db', .ok row) =>
    if FitsColumns levels result (recordedDuration attempt result now) then (db', .ok row)
    else (db, .error .refused)
  | (db', .error error) => (db', .error (.raised error))

/-- The end of a turn of `process_tasks`: decide, record, acknowledge. The database that it
leaves, and whether the message has been acknowledged. -/
def concludeTask (levels : Nat) (db : Database) (policy : RetryPolicy) (task : InvocationTask)
    (attempt : InvocationAttempt) (result : RuntimeExecutionResult) (dispatchId : UUID)
    (now : Time) : Database × Bool :=
  match commitFinished levels db task.invocationId attempt result
      (policy.decide result attempt.attemptNumber) dispatchId now with
  | (db', .ok _) => (db', true)
  | (db', .error _) => (db', false)

/-- A refused commit leaves everything as it was, and the message pending. -/
theorem concludeTask_refused {levels : Nat} {db : Database} {policy : RetryPolicy}
    {task : InvocationTask} {attempt : InvocationAttempt} {result : RuntimeExecutionResult}
    {dispatchId : UUID} {now : Time}
    (h : ¬ FitsColumns levels result (recordedDuration attempt result now)) :
    concludeTask levels db policy task attempt result dispatchId now = (db, false) := by
  unfold concludeTask commitFinished
  rcases hm : markFinished db task.invocationId attempt.id (some attempt) result
    (policy.decide result attempt.attemptNumber) dispatchId now with ⟨db', error | row⟩
  · obtain rfl := markFinished_error hm
    rfl
  · dsimp only
    rw [if_neg h]

theorem concludeTask_committed {levels : Nat} {db db' : Database} {policy : RetryPolicy}
    {task : InvocationTask} {attempt row : InvocationAttempt} {result : RuntimeExecutionResult} {dispatchId : UUID}
    {now : Time}
    (hm : markFinished db task.invocationId attempt.id (some attempt) result
      (policy.decide result attempt.attemptNumber) dispatchId now = (db', .ok row))
    (h : FitsColumns levels result (recordedDuration attempt result now)) :
    concludeTask levels db policy task attempt result dispatchId now = (db', true) := by
  unfold concludeTask commitFinished
  rw [hm]
  dsimp only
  rw [if_pos h]

/-! ## Texts without a NUL -/

@[simp] theorem fitsText_append {s t : PyStr} : FitsText (s ++ t) ↔ FitsText s ∧ FitsText t :=
  List.forall_mem_append

/-- A string has no surrogates, so that all that matters is its NUL. -/
theorem fitsText_ofString {s : String} : FitsText s ↔ Char.ofNat 0 ∉ s.toList := by
  constructor
  · intro h hm
    exact (h _ (List.mem_map_of_mem hm)).1 rfl
  · intro h p hp
    refine ⟨?_, CodePoint.not_isSurrogate_of_mem hp⟩
    rintro rfl
    obtain ⟨c, hc, he⟩ := List.mem_map.mp hp
    obtain rfl : c = Char.ofNat 0 := CodePoint.ofChar_injective he
    exact h hc

theorem fitsText_concat {s t : String} :
    FitsText (CodePoint.ofString (s ++ t)) ↔ FitsText s ∧ FitsText t := by
  rw [CodePoint.ofString_append, fitsText_append]

/-- A fixed text in front of another one. -/
theorem fitsText_before {s t : String} (hs : Char.ofNat 0 ∉ s.toList) (ht : FitsText t) :
    FitsText (CodePoint.ofString (s ++ t)) :=
  fitsText_concat.mpr ⟨fitsText_ofString.mpr hs, ht⟩

/-- A text between two fixed ones. -/
theorem fitsText_between {s t u : String} (hs : Char.ofNat 0 ∉ s.toList) (ht : FitsText t)
    (hu : Char.ofNat 0 ∉ u.toList) : FitsText (CodePoint.ofString (s ++ t ++ u)) :=
  fitsText_concat.mpr ⟨fitsText_before hs ht, fitsText_ofString.mpr hu⟩

theorem fitsVarchar_ofString {n : Nat} {s : String} (hlen : s.length ≤ n)
    (hnul : Char.ofNat 0 ∉ s.toList) : FitsVarchar n s :=
  ⟨(CodePoint.length_ofString s).trans_le hlen, fitsText_ofString.mpr hnul⟩

theorem nul_not_mem_toDigits (n : Nat) : Char.ofNat 0 ∉ Nat.toDigits 10 n :=
  fun h => absurd (Nat.isDigit_of_mem_toDigits (by decide) (by decide) h) (by decide)

theorem fitsText_nat (n : Nat) : FitsText (toString n) := by
  have hlist : (toString n).toList = Nat.toDigits 10 n := by simp
  rw [fitsText_ofString, hlist]
  exact nul_not_mem_toDigits n

theorem fitsText_int (n : Int) : FitsText (toString n) := by
  cases n with
  | ofNat n => exact fitsText_nat n
  | negSucc n =>
    have hneg : toString (Int.negSucc n) = "-" ++ toString (n + 1) := rfl
    rw [hneg]
    exact fitsText_before (by decide) (fitsText_nat (n + 1))

/-- A number in the `g` format. -/
theorem fitsText_formatG (q : ℚ) : FitsText (formatG q) := by
  have htrim : ∀ {cs : List Char}, Char.ofNat 0 ∉ cs →
      Char.ofNat 0 ∉ (cs.reverse.dropWhile (· = '0')).reverse := by
    intro cs h hm
    rw [List.mem_reverse] at hm
    exact h (List.mem_reverse.mp ((List.dropWhile_sublist _).subset hm))
  have hzeros : ∀ n, Char.ofNat 0 ∉ List.replicate n '0' := by
    intro n h
    exact absurd (List.eq_of_mem_replicate h) (by decide)
  have hpoint : ∀ {whole frac : List Char}, Char.ofNat 0 ∉ whole → Char.ofNat 0 ∉ frac →
      Char.ofNat 0 ∉ (if (frac.reverse.dropWhile (· = '0')).reverse = [] then whole
        else whole ++ '.' :: (frac.reverse.dropWhile (· = '0')).reverse) := by
    intro whole frac hw hf
    split
    · exact hw
    · intro h
      rcases List.mem_append.mp h with h | h
      · exact hw h
      · rcases List.mem_cons.mp h with h | h
        · exact absurd h (by decide)
        · exact htrim hf h
  rw [fitsText_ofString]
  unfold formatG
  dsimp only
  have htake : ∀ n k, Char.ofNat 0 ∉ (Nat.toDigits 10 n).take k :=
    fun n k h => nul_not_mem_toDigits n (List.mem_of_mem_take h)
  have hdrop : ∀ n k, Char.ofNat 0 ∉ (Nat.toDigits 10 n).drop k :=
    fun n k h => nul_not_mem_toDigits n (List.mem_of_mem_drop h)
  generalize (if (roundHalfEven (q * 10 ^ (5 - Int.log 10 q))).toNat < 1000000 then Int.log 10 q
    else Int.log 10 q + 1) = e
  split
  · decide
  split
  · -- with an exponent of at least two digits
    rw [String.toList_ofList]
    intro h
    rcases List.mem_append.mp h with h | h
    · exact hpoint (htake _ _) (hdrop _ _) h
    rcases List.mem_cons.mp h with h | h
    · exact absurd h (by decide)
    rcases List.mem_cons.mp h with h | h
    · split at h <;> exact absurd h (by decide)
    rcases List.mem_append.mp h with h | h
    · exact hzeros _ h
    · exact nul_not_mem_toDigits _ h
  split
  · -- below one
    rw [String.toList_ofList]
    refine hpoint (by decide) fun h => ?_
    rcases List.mem_append.mp h with h | h
    · exact hzeros _ h
    · exact nul_not_mem_toDigits _ h
  · rw [String.toList_ofList]
    exact hpoint (htake _ _) (hdrop _ _)

/-! ## The messages of the decoder -/

namespace Json

/-- A `JSONDecodeError` has a message that fits any text column. -/
def LoadError.Plain : LoadError → Prop
  | .decode msg => FitsText msg
  | .tooManyDigits _ | .tooDeep _ => True

theorem plain_decode {msg : String} (h : Char.ofNat 0 ∉ msg.toList) :
    (LoadError.decode msg).Plain := fitsText_ofString.mpr h

theorem Scan.cons_error {u : CodePoint} {r : Scan PyStr} {e : LoadError}
    (h : Scan.cons u r = .error e) : r = .error e := by
  unfold Scan.cons at h
  split at h <;> cases h
  rfl

theorem scanUnits_error {cs : List Char} {e : LoadError} (h : scanUnits cs = .error e) :
    e.Plain := by
  fun_induction scanUnits cs with
  | case1 => cases h; exact plain_decode (by decide)
  | case2 => cases h
  | case3 => cases h; exact plain_decode (by decide)
  | case4 =>
    rename_i ih
    exact ih (Scan.cons_error h)
  | case5 => cases h; exact plain_decode (by decide)
  | case6 => cases h; exact plain_decode (by decide)
  | case7 =>
    rename_i ih
    exact ih (Scan.cons_error h)
  | case8 => cases h; exact plain_decode (by decide)
  | case9 => cases h; exact plain_decode (by decide)
  | case10 =>
    rename_i ih
    exact ih (Scan.cons_error h)

theorem scanString_error {cs : List Char} {e : LoadError} (h : scanString cs = .error e) :
    e.Plain := by
  unfold scanString at h
  split at h
  · cases h
  · rename_i hs
    cases h
    exact scanUnits_error hs

theorem scanNumber_error {F : Format} {cs : List Char} {e : LoadError}
    (h : scanNumber F cs = .error e) : e.Plain := by
  unfold scanNumber at h
  dsimp only at h
  split at h
  · cases h
    exact plain_decode (by decide)
  split at h
  · unfold intOf at h
    split at h
    · cases h
    · cases h
      trivial
  · cases h

theorem scan_error (F : Format) (n : Nat) :
    (∀ {room cs e}, scanOnce F room n cs = .error e → e.Plain) ∧
    (∀ {room cs e}, scanItems F room n cs = .error e → e.Plain) ∧
    (∀ {room cs e}, scanPairs F room n cs = .error e → e.Plain) := by
  have hvalue : (LoadError.decode "Expecting value").Plain := plain_decode (by decide)
  have hcomma : (LoadError.decode "Expecting ',' delimiter").Plain := plain_decode (by decide)
  induction n with
  | zero =>
    refine ⟨fun h => ?_, fun h => ?_, fun h => ?_⟩
    · rw [scanOnce] at h; cases h; exact hvalue
    · rw [scanItems] at h; cases h; exact hvalue
    · rw [scanPairs] at h; cases h; exact hvalue
  | succ n ih =>
    obtain ⟨hOnce, hItems, hPairs⟩ := ih
    refine ⟨fun {room cs e} h => ?_, fun {room cs e} h => ?_, fun {room cs e} h => ?_⟩
    · cases cs with
      | nil => rw [scanOnce] at h; cases h; exact hvalue
      | cons c cs =>
        rw [scanOnce] at h
        split at h
        · split at h
          · cases h
          · rename_i hs
            cases h
            exact scanString_error hs
        split at h
        · split at h
          · cases h
            trivial
          split at h
          · cases h
          split at h
          · cases h
          · rename_i hs
            cases h
            exact hPairs hs
        split at h
        · split at h
          · cases h
            trivial
          split at h
          · cases h
          split at h
          · cases h
          · rename_i hs
            cases h
            exact hItems hs
        split at h
        · cases h
        · exact scanNumber_error h
    · rw [scanItems] at h
      split at h
      · rename_i hs
        cases h
        exact hOnce hs
      split at h
      · cases h
      split at h
      · split at h
        · cases h
        · rename_i hs
          cases h
          exact hItems hs
      · cases h
        exact hcomma
    · rw [scanPairs] at h
      split at h
      · cases h
        exact plain_decode (by decide)
      split at h
      · rename_i hs
        cases h
        exact scanString_error hs
      split at h
      · cases h
        exact plain_decode (by decide)
      split at h
      · rename_i hs
        cases h
        exact hOnce hs
      split at h
      · cases h
      split at h
      · split at h
        · cases h
        · rename_i hs
          cases h
          exact hPairs hs
      · cases h
        exact hcomma

/-- What a `JSONDecodeError` says fits any text column. -/
theorem loads_error {F : Format} {text : List Char} {msg : String}
    (h : loads F text = .error (.decode msg)) : FitsText msg := by
  unfold loads at h
  split at h
  · cases h
    exact fitsText_ofString.mpr (by decide)
  split at h
  · rename_i hs
    cases h
    exact (scan_error F _).1 hs
  split at h
  · cases h
  · cases h
    exact fitsText_ofString.mpr (by decide)

end Json

end Serverless.Model
