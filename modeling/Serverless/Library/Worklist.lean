import Mathlib.Data.Fintype.Card
import Mathlib.Logic.Relation

/-!
# Searching a graph with a worklist

A node is popped, skipped if it was seen, tested, and replaced by its successors. On a finite
graph the search ends, and it answers whether a node that passes the test is reachable.
-/
namespace Serverless.Library.Worklist

variable {ν : Type*} {next : ν → List ν} {goal : ν → Bool}

/-- A path along successors. -/
abbrev Reach (next : ν → List ν) : ν → ν → Prop := Relation.ReflTransGen fun v w => w ∈ next v

/-- What the search knows: a seen node fails the test, and its successors are seen or pending. -/
structure Explored (next : ν → List ν) (goal : ν → Bool) (pending seen : List ν) : Prop where
  failed : ∀ v ∈ seen, goal v = false
  closed : ∀ v ∈ seen, ∀ w ∈ next v, w ∈ seen ∨ w ∈ pending

theorem Explored.skip {v : ν} {pending seen : List ν} (h : Explored next goal (v :: pending) seen)
    (hv : v ∈ seen) : Explored next goal pending seen := by
  refine ⟨h.failed, fun u hu w hw => ?_⟩
  rcases h.closed u hu w hw with hw | hw
  · exact .inl hw
  · rcases List.mem_cons.mp hw with rfl | hw
    · exact .inl hv
    · exact .inr hw

theorem Explored.expand {v : ν} {pending seen : List ν} (h : Explored next goal (v :: pending) seen)
    (hg : goal v = false) : Explored next goal (next v ++ pending) (v :: seen) := by
  constructor
  · intro u hu
    rcases List.mem_cons.mp hu with rfl | hu
    · exact hg
    · exact h.failed u hu
  · intro u hu w hw
    rcases List.mem_cons.mp hu with rfl | hu
    · exact .inr (List.mem_append_left _ hw)
    · rcases h.closed u hu w hw with hw | hw
      · exact .inl (List.mem_cons_of_mem v hw)
      · rcases List.mem_cons.mp hw with rfl | hw
        · exact .inl List.mem_cons_self
        · exact .inr (List.mem_append_right _ hw)

/-- When nothing is pending, what is seen is closed under paths. -/
theorem Explored.reach {seen : List ν} (h : Explored next goal [] seen) {v w : ν} (hv : v ∈ seen)
    (hreach : Reach next v w) : w ∈ seen := by
  induction hreach with
  | refl => exact hv
  | tail _ hstep ih =>
    rcases h.closed _ ih _ hstep with hw | hw
    · exact hw
    · exact absurd hw List.not_mem_nil

variable [DecidableEq ν]

/-- The search with a budget of iterations, from the nodes pending and the nodes seen. -/
def search (next : ν → List ν) (goal : ν → Bool) : Nat → List ν → List ν → Option Bool
  | 0, _, _ => none
  | _ + 1, [], _ => some false
  | n + 1, v :: pending, seen =>
    if v ∈ seen then search next goal n pending seen
    else if goal v then some true
    else search next goal n (next v ++ pending) (v :: seen)

theorem search_skip {n : Nat} {v : ν} {pending seen : List ν} (h : v ∈ seen) :
    search next goal (n + 1) (v :: pending) seen = search next goal n pending seen := by
  simp [search, h]

theorem search_found {n : Nat} {v : ν} {pending seen : List ν} (h : v ∉ seen) (hg : goal v = true) :
    search next goal (n + 1) (v :: pending) seen = some true := by
  simp [search, h, hg]

theorem search_expand {n : Nat} {v : ν} {pending seen : List ν} (h : v ∉ seen) (hg : goal v = false) :
    search next goal (n + 1) (v :: pending) seen = search next goal n (next v ++ pending) (v :: seen) := by
  simp [search, h, hg]

/-- A search that has ended does not change with a larger budget. -/
theorem search_stable {n m : Nat} {pending seen : List ν} {b : Bool}
    (h : search next goal n pending seen = some b) (hle : n ≤ m) :
    search next goal m pending seen = some b := by
  induction n generalizing m pending seen with
  | zero => cases h
  | succ n ih =>
    obtain ⟨m, rfl⟩ : ∃ k, m = k + 1 := ⟨m - 1, by omega⟩
    cases pending with
    | nil => exact h
    | cons v pending =>
      by_cases hseen : v ∈ seen
      · rw [search_skip hseen] at h ⊢
        exact ih h (by omega)
      · cases hg : goal v with
        | true =>
          rw [search_found hseen hg] at h ⊢
          exact h
        | false =>
          rw [search_expand hseen hg] at h ⊢
          exact ih h (by omega)

/-- Every expanded node was unseen, so a finite graph is expanded finitely often, and between two
expansions the worklist shrinks. -/
theorem search_terminates [Fintype ν] (next : ν → List ν) (goal : ν → Bool) (pending seen : List ν) :
    ∃ n b, search next goal n pending seen = some b := by
  -- outer induction on the number of unseen nodes, inner one on the worklist
  induction hk : Fintype.card ν - seen.toFinset.card using Nat.strong_induction_on
    generalizing pending seen with
  | _ k ih =>
    induction pending with
    | nil => exact ⟨1, false, rfl⟩
    | cons v pending ihp =>
      by_cases hseen : v ∈ seen
      · obtain ⟨n, b, hn⟩ := ihp
        exact ⟨n + 1, b, by rw [search_skip hseen, hn]⟩
      · cases hg : goal v with
        | true => exact ⟨1, true, search_found hseen hg⟩
        | false =>
          have hcard : (v :: seen).toFinset.card = seen.toFinset.card + 1 := by
            rw [List.toFinset_cons, Finset.card_insert_of_notMem (by simpa using hseen)]
          have hle : (v :: seen).toFinset.card ≤ Fintype.card ν := Finset.card_le_univ _
          obtain ⟨n, b, hn⟩ := ih (Fintype.card ν - (v :: seen).toFinset.card) (by omega)
            (next v ++ pending) (v :: seen) rfl
          exact ⟨n + 1, b, by rw [search_expand hseen hg, hn]⟩

/-- A positive answer has a pending node that leads to the node found. -/
theorem exists_of_search_true {n : Nat} {pending seen : List ν}
    (h : search next goal n pending seen = some true) :
    ∃ v ∈ pending, ∃ w, Reach next v w ∧ goal w = true := by
  induction n generalizing pending seen with
  | zero => cases h
  | succ n ih =>
    cases pending with
    | nil => cases h
    | cons v pending =>
      by_cases hseen : v ∈ seen
      · rw [search_skip hseen] at h
        obtain ⟨u, hu, w, hreach, hw⟩ := ih h
        exact ⟨u, List.mem_cons_of_mem v hu, w, hreach, hw⟩
      · cases hg : goal v with
        | true => exact ⟨v, List.mem_cons_self, v, .refl, hg⟩
        | false =>
          rw [search_expand hseen hg] at h
          obtain ⟨u, hu, w, hreach, hw⟩ := ih h
          rcases List.mem_append.mp hu with hu | hu
          · exact ⟨v, List.mem_cons_self, w, .head hu hreach, hw⟩
          · exact ⟨u, List.mem_cons_of_mem v hu, w, hreach, hw⟩

/-- After a negative answer no node that was seen or pending leads to one that passes the test. -/
theorem forall_of_search_false {n : Nat} {pending seen : List ν} (hinv : Explored next goal pending seen)
    (h : search next goal n pending seen = some false) {v w : ν} (hv : v ∈ seen ∨ v ∈ pending)
    (hreach : Reach next v w) : goal w = false := by
  induction n generalizing pending seen with
  | zero => cases h
  | succ n ih =>
    cases pending with
    | nil =>
      have hv : v ∈ seen := hv.resolve_right List.not_mem_nil
      exact hinv.failed w (hinv.reach hv hreach)
    | cons u pending =>
      by_cases hseen : u ∈ seen
      · rw [search_skip hseen] at h
        apply ih (hinv.skip hseen) h
        rcases hv with hv | hv
        · exact .inl hv
        · rcases List.mem_cons.mp hv with rfl | hv
          · exact .inl hseen
          · exact .inr hv
      · cases hg : goal u with
        | true =>
          rw [search_found hseen hg] at h
          cases h
        | false =>
          rw [search_expand hseen hg] at h
          apply ih (hinv.expand hg) h
          rcases hv with hv | hv
          · exact .inl (List.mem_cons_of_mem u hv)
          · rcases List.mem_cons.mp hv with rfl | hv
            · exact .inl List.mem_cons_self
            · exact .inr (List.mem_append_right _ hv)

/-- The search from one node ends with the answer whether a node that passes the test is
reachable from it, and from then on the budget does not matter. -/
theorem search_correct [Fintype ν] (next : ν → List ν) (goal : ν → Bool) (v : ν) :
    ∃ b, (∃ n, ∀ m ≥ n, search next goal m [v] [] = some b) ∧
      (b = true ↔ ∃ w, Reach next v w ∧ goal w = true) := by
  obtain ⟨n, b, hn⟩ := search_terminates next goal [v] []
  refine ⟨b, ⟨n, fun m hm => search_stable hn hm⟩, ?_⟩
  cases b with
  | true =>
    obtain ⟨u, hu, w, hreach, hw⟩ := exists_of_search_true hn
    rw [List.mem_singleton.mp hu] at hreach
    exact iff_of_true rfl ⟨w, hreach, hw⟩
  | false =>
    refine iff_of_false Bool.false_ne_true ?_
    rintro ⟨w, hreach, hw⟩
    have hinv : Explored next goal [v] [] := ⟨by simp, by simp⟩
    have hfalse := forall_of_search_false hinv hn (.inr List.mem_cons_self) hreach
    rw [hfalse] at hw
    cases hw

end Serverless.Library.Worklist
