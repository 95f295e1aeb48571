import Mathlib.Data.List.Sort
import Serverless.Library.Runs

/-!
# Waiting and fairness

How a run comes to something. A queue that is served in batches, first come first served, is a matter
of counting who is ahead. In an infinite run something happens in the end when, as long as it has not
happened, a rank goes down from time to time.
-/
namespace Serverless.Library

universe u v

/-! ## A queue that is served in batches -/

section Queue

variable {α : Type u} {r : α → α → Prop} [DecidableRel r] [Std.Total r] [IsTrans α r]

/-- Whoever is not in the batch of a sorted queue has a full batch before them. -/
theorem take_or_ahead {l : List α} {d : α} (hd : d ∈ l) (limit : Nat) :
    d ∈ (l.insertionSort r).take limit ∨
      ((l.insertionSort r).take limit).length = limit ∧ ∀ e ∈ (l.insertionSort r).take limit, r e d := by
  have hsorted : (l.insertionSort r).Pairwise r := List.pairwise_insertionSort r l
  have hmem : d ∈ (l.insertionSort r).take limit ++ (l.insertionSort r).drop limit := by
    rw [List.take_append_drop]
    exact (List.mem_insertionSort r).mpr hd
  rw [← List.take_append_drop limit (l.insertionSort r)] at hsorted
  rcases List.mem_append.mp hmem with hbatch | hrest
  · exact .inl hbatch
  · refine .inr ⟨?_, fun e he => (List.pairwise_append.mp hsorted).2.2 e he d hrest⟩
    have hlong : limit < (l.insertionSort r).length := by
      by_contra hle
      rw [List.drop_eq_nil_of_le (by omega)] at hrest
      cases hrest
    rw [List.length_take]
    omega

variable [DecidableEq α]

/-- What a batch takes off a count. -/
theorem countP_rest_add_length_le {rows batch : List α} {p : α → Bool} (hnodup : batch.Nodup)
    (hbatch : ∀ e ∈ batch, e ∈ rows ∧ p e = true) :
    (rows.countP fun e => p e && decide (e ∉ batch)) + batch.length ≤ rows.countP p := by
  have hsplit : rows.countP p = (rows.filter (· ∈ batch)).countP p +
      (rows.filter fun e => !decide (e ∈ batch)).countP p :=
    List.countP_eq_countP_filter_add rows p (· ∈ batch)
  have hsub : batch ⊆ (rows.filter (· ∈ batch)).filter p := fun e he =>
    List.mem_filter.mpr ⟨List.mem_filter.mpr ⟨(hbatch e he).1, by simpa using he⟩, (hbatch e he).2⟩
  have hle := (List.subperm_of_subset hnodup hsub).length_le
  rw [← List.countP_eq_length_filter] at hle
  rw [List.countP_filter (l := rows) (q := fun e => !decide (e ∈ batch))] at hsplit
  simp only [decide_not]
  omega

end Queue

/-! ## Finite runs -/

section Runs

variable {σ : Type u} {ε : Type v} {step : σ → ε → Option σ}

/-- The sum of a quantity over the steps of a run. -/
def sumOver (turns : σ → ε → Nat) : List (σ × ε × σ) → Nat
  | [] => 0
  | p :: steps => turns p.1 p.2.1 + sumOver turns steps

/-- If each step takes its turns off the number of those ahead, unless it serves, then whoever has
fewer ahead than there are turns is served in the run. -/
theorem served_of_turns {I served : σ → Prop} {ahead : σ → Nat} {turns : σ → ε → Nat}
    (hstep : ∀ {s t e}, I s → step s e = some t → I t ∧ (served t ∨ ahead t + turns s e ≤ ahead s))
    (hserved : ∀ {s t e}, I s → served s → step s e = some t → served t) {s t : σ} {es : List ε} (h : I s)
    (hrun : replay step s es = some t) (hturns : ahead s < sumOver turns (trace step s es)) : served t := by
  have hstays : ∀ {es : List ε} {s : σ}, I s → served s → replay step s es = some t → served t := by
    intro es
    induction es with
    | nil =>
      intro s _ hs hrun
      cases hrun
      exact hs
    | cons e es ih =>
      intro s hI hs hrun
      obtain ⟨m, hm, hrun⟩ := Option.bind_eq_some_iff.mp hrun
      exact ih (hstep hI hm).1 (hserved hI hs hm) hrun
  induction es generalizing s with
  | nil => simp [trace, sumOver] at hturns
  | cons e es ih =>
    obtain ⟨m, hm, hrun⟩ := Option.bind_eq_some_iff.mp hrun
    obtain ⟨hI, hs | hahead⟩ := hstep h hm
    · exact hstays hI hs hrun
    · apply ih hI hrun
      simp only [trace, hm, sumOver] at hturns
      omega

end Runs

/-! ## Infinite runs -/

/-- If the rank goes down from time to time until something happens, it happens, and so ever again. -/
theorem eventually_of_rank (rank : Nat → Nat) {goal : Nat → Prop}
    (h : ∀ n, ∃ k, n ≤ k ∧ (goal k ∨ rank k < rank n)) (n : Nat) : ∃ k, n ≤ k ∧ goal k := by
  induction hr : rank n using Nat.strong_induction_on generalizing n with
  | _ r ih =>
    obtain ⟨k, hk, hgoal | hlt⟩ := h n
    · exact ⟨k, hk, hgoal⟩
    · obtain ⟨m, hm, hgoal⟩ := ih (rank k) (hr ▸ hlt) k rfl
      exact ⟨m, hk.trans hm, hgoal⟩

/-- A run that never ends. -/
structure Execution {σ : Type u} {ε : Type v} (step : σ → ε → Option σ) (init : σ → Prop) where
  state : Nat → σ
  event : Nat → ε
  start : init (state 0)
  next : ∀ n, step (state n) (event n) = some (state (n + 1))

namespace Execution

variable {σ : Type u} {ε : Type v} {step : σ → ε → Option σ} {init : σ → Prop}
  (x : Execution step init)

theorem reachableBy {ok : σ → ε → Prop} (hok : ∀ n, ok (x.state n) (x.event n)) (n : Nat) :
    ReachableBy step ok init (x.state n) := by
  induction n with
  | zero => exact .start x.start
  | succ n ih => exact ih.next (hok n) (x.next n)

theorem reachable (n : Nat) : Reachable step init (x.state n) :=
  x.reachableBy (fun _ => trivial) n

/-- One step, and what comes after it. -/
def cons {s : σ} (hs : init s) (e : ε) (tail : Execution step fun t => step s e = some t) :
    Execution step init where
  state
    | 0 => s
    | n + 1 => tail.state n
  event
    | 0 => e
    | n + 1 => tail.event n
  start := hs
  next
    | 0 => tail.start
    | n + 1 => tail.next n

/-- A finite run can be continued by an infinite one from where it ends. -/
theorem exists_prepend {ok : σ → ε → Prop} {s : σ} (hs : init s) {es : List ε}
    (hes : ∀ p ∈ trace step s es, ok p.1 p.2.1) (tail : Execution step fun t => replay step s es = some t)
    (htail : ∀ n, ok (tail.state n) (tail.event n)) :
    ∃ x : Execution step init, (∀ n ≤ es.length, replay step s (es.take n) = some (x.state n)) ∧
      (∀ n, x.state (es.length + n) = tail.state n ∧ x.event (es.length + n) = tail.event n) ∧
      ∀ n, ok (x.state n) (x.event n) := by
  induction es generalizing init s with
  | nil =>
    have hstart : s = tail.state 0 := Option.some.inj tail.start
    refine ⟨{ tail with start := hstart ▸ hs }, fun n hn => ?_, fun n => ?_, htail⟩
    · rw [Nat.le_zero.mp hn]
      exact congrArg some hstart
    · rw [List.length_nil, Nat.zero_add]
      exact ⟨rfl, rfl⟩
  | cons e es ih =>
    obtain ⟨m, hm, hreplay⟩ := Option.bind_eq_some_iff.mp tail.start
    simp only [trace, hm, List.forall_mem_cons] at hes
    obtain ⟨y, hbefore, hafter, hok⟩ := @ih (fun t => step s e = some t) m hm hes.2
      { tail with start := hreplay } htail
    refine ⟨cons hs e y, fun n hn => ?_, fun n => ?_, fun n => ?_⟩
    · cases n with
      | zero => rfl
      | succ n =>
        rw [List.take_succ_cons, replay, hm]
        exact hbefore n (Nat.le_of_succ_le_succ hn)
    · have hindex : (e :: es).length + n = es.length + n + 1 := by
        rw [List.length_cons]
        omega
      rw [hindex]
      exact hafter n
    · cases n with
      | zero => exact hes.1
      | succ n => exact hok n

end Execution

end Serverless.Library
