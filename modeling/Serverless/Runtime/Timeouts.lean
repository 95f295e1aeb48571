import Serverless.Library.Worklist
import Serverless.Model.Runtime

/-!
# Recognising timeouts

`is_timeout_error` of `worker/app/runtime/docker_executor.py` on exception objects as the
interpreter has them: objects with an identity that point at each other, so that chains can
share objects and can run in circles. The trees of the other modules are unfoldings of such
objects; both readings recognise the same exceptions.
-/
namespace Serverless.Runtime

open Serverless.Library Serverless.Model

/-- An exception object whose links are the identities of other objects. An argument that is no
exception is `none`. -/
structure ExceptionObject (ν : Type) where
  className : String
  message : String
  isTimeoutError : Bool
  cause : Option ν
  context : Option ν
  args : List (Option ν)

/-- The exception objects that are alive, by their identities. -/
structure ExceptionGraph where
  size : Nat
  object : Fin size → ExceptionObject (Fin size)

namespace ExceptionGraph

variable (g : ExceptionGraph)

/-- The test of one object. The lower case of a character outside ASCII is no part of any of the
three texts, so that ASCII lower case decides it. -/
def looksLikeTimeout (e : Fin g.size) : Bool :=
  let current := g.object e
  current.isTimeoutError || PyException.mentions "timeout" current.className ||
    PyException.mentions "read timed out" current.message ||
    PyException.mentions "read timeout" current.message

/-- The objects that one object links to, in the order in which they are appended. -/
def linked (e : Fin g.size) : List (Fin g.size) :=
  let current := g.object e
  current.cause.toList ++ current.context.toList ++ current.args.filterMap id

/-- `is_timeout_error` with a budget of iterations of its loop. The list `pending` is popped at
its end, so it is kept here with its end in front. -/
def isTimeoutError (iterations : Nat) (exc : Fin g.size) : Option Bool :=
  Worklist.search (fun e => (g.linked e).reverse) g.looksLikeTimeout iterations [exc] []

/-- One exception is the cause, the context or an argument of another. -/
def LinksTo (e e' : Fin g.size) : Prop :=
  (g.object e).cause = some e' ∨ (g.object e).context = some e' ∨ some e' ∈ (g.object e).args

theorem mem_linked {e e' : Fin g.size} : e' ∈ g.linked e ↔ g.LinksTo e e' := by
  simp [linked, LinksTo, Option.mem_toList, List.mem_filterMap]

theorem looksLikeTimeout_iff (e : Fin g.size) :
    g.looksLikeTimeout e = true ↔ (g.object e).isTimeoutError = true ∨
      PyException.mentions "timeout" (g.object e).className = true ∨
      PyException.mentions "read timed out" (g.object e).message = true ∨
      PyException.mentions "read timeout" (g.object e).message = true := by
  simp [looksLikeTimeout, or_assoc]

theorem reach_iff {e e' : Fin g.size} :
    Worklist.Reach (fun e => (g.linked e).reverse) e e' ↔ Relation.ReflTransGen g.LinksTo e e' := by
  have hrel : (fun v w => w ∈ (g.linked v).reverse) = g.LinksTo := by
    funext v w
    exact propext (List.mem_reverse.trans g.mem_linked)
  rw [Worklist.Reach, hrel]

/-- On every graph of exceptions the loop ends, and its answer is whether an exception that
looks like a timeout can be reached. -/
theorem isTimeoutError_correct (g : ExceptionGraph) (exc : Fin g.size) :
    ∃ answer, (∃ n, ∀ m ≥ n, g.isTimeoutError m exc = some answer) ∧
      (answer = true ↔ ∃ e, Relation.ReflTransGen g.LinksTo exc e ∧
        ((g.object e).isTimeoutError = true ∨
          PyException.mentions "timeout" (g.object e).className = true ∨
          PyException.mentions "read timed out" (g.object e).message = true ∨
          PyException.mentions "read timeout" (g.object e).message = true)) := by
  obtain ⟨answer, hends, hanswer⟩ := Worklist.search_correct
    (fun e => (g.linked e).reverse) g.looksLikeTimeout exc
  refine ⟨answer, hends, hanswer.trans ?_⟩
  simp only [reach_iff, looksLikeTimeout_iff]

/-! ## Unfoldings -/

/-- The tree that one sees when one follows the links down to a depth. -/
def unfold : Nat → Fin g.size → PyException
  | 0, e => .mk (g.object e).className (g.object e).message (g.object e).isTimeoutError []
  | depth + 1, e =>
    .mk (g.object e).className (g.object e).message (g.object e).isTimeoutError
      ((g.linked e).map (unfold depth))

/-- Reachable along at most some number of links. -/
def Within : Nat → Fin g.size → Fin g.size → Prop
  | 0, e, e' => e = e'
  | depth + 1, e, e' => e = e' ∨ ∃ u, g.LinksTo e u ∧ Within depth u e'

variable {g}

theorem Within.mono {d d' : Nat} {e e' : Fin g.size} (h : g.Within d e e') (hle : d ≤ d') :
    g.Within d' e e' := by
  induction d generalizing d' e with
  | zero =>
    cases d' with
    | zero => exact h
    | succ d' => exact .inl h
  | succ d ih =>
    obtain ⟨d', rfl⟩ : ∃ k, d' = k + 1 := ⟨d' - 1, by omega⟩
    rcases h with rfl | ⟨u, hu, h⟩
    · exact .inl rfl
    · exact .inr ⟨u, hu, ih h (by omega)⟩

theorem Within.reach {d : Nat} {e e' : Fin g.size} (h : g.Within d e e') :
    Relation.ReflTransGen g.LinksTo e e' := by
  induction d generalizing e with
  | zero =>
    cases h
    exact .refl
  | succ d ih =>
    rcases h with rfl | ⟨u, hu, h⟩
    · exact .refl
    · exact .head hu (ih h)

theorem exists_within {e e' : Fin g.size} (h : Relation.ReflTransGen g.LinksTo e e') :
    ∃ d, g.Within d e e' := by
  induction h using Relation.ReflTransGen.head_induction_on with
  | refl => exact ⟨0, rfl⟩
  | head hu _ ih =>
    obtain ⟨d, hd⟩ := ih
    exact ⟨d + 1, .inr ⟨_, hu, hd⟩⟩

theorem anyTimeoutError_iff (es : List PyException) :
    PyException.anyTimeoutError es = true ↔ ∃ e ∈ es, e.isTimeoutError = true := by
  induction es with
  | nil => simp [PyException.anyTimeoutError]
  | cons e es ih => simp [PyException.anyTimeoutError, ih]

theorem isTimeoutError_unfold (d : Nat) (e : Fin g.size) :
    (g.unfold d e).isTimeoutError = true ↔ ∃ e', g.Within d e e' ∧ g.looksLikeTimeout e' = true := by
  induction d generalizing e with
  | zero =>
    simp [unfold, PyException.isTimeoutError, PyException.anyTimeoutError, Within, looksLikeTimeout]
  | succ d ih =>
    have hroot : (g.unfold (d + 1) e).isTimeoutError =
        (g.looksLikeTimeout e || PyException.anyTimeoutError ((g.linked e).map (g.unfold d))) := rfl
    rw [hroot, Bool.or_eq_true, anyTimeoutError_iff]
    constructor
    · rintro (h | ⟨t, ht, h⟩)
      · exact ⟨e, .inl rfl, h⟩
      · obtain ⟨u, hu, rfl⟩ := List.mem_map.mp ht
        obtain ⟨e', hwithin, he'⟩ := (ih u).mp h
        exact ⟨e', .inr ⟨u, g.mem_linked.mp hu, hwithin⟩, he'⟩
    · rintro ⟨e', rfl | ⟨u, hu, hwithin⟩, he'⟩
      · exact .inl he'
      · exact .inr ⟨g.unfold d u, List.mem_map_of_mem (g.mem_linked.mpr hu), (ih u).mpr ⟨e', hwithin, he'⟩⟩

/-- The loop on the objects and the reading of the unfolded tree agree, as soon as the tree is
deep enough. -/
theorem isTimeoutError_unfold_agrees (exc : Fin g.size) :
    ∃ depth, ∀ d ≥ depth, ∃ n, ∀ m ≥ n,
      g.isTimeoutError m exc = some (g.unfold d exc).isTimeoutError := by
  obtain ⟨answer, ⟨n, hn⟩, hanswer⟩ := Worklist.search_correct
    (fun e => (g.linked e).reverse) g.looksLikeTimeout exc
  simp only [reach_iff] at hanswer
  cases answer with
  | true =>
    obtain ⟨e, hreach, he⟩ := hanswer.mp rfl
    obtain ⟨depth, hdepth⟩ := exists_within hreach
    refine ⟨depth, fun d hd => ⟨n, fun m hm => ?_⟩⟩
    rw [(isTimeoutError_unfold d exc).mpr ⟨e, hdepth.mono hd, he⟩]
    exact hn m hm
  | false =>
    refine ⟨0, fun d _ => ⟨n, fun m hm => ?_⟩⟩
    have hfalse : (g.unfold d exc).isTimeoutError = false := by
      apply Bool.eq_false_iff.mpr
      intro h
      obtain ⟨e, hwithin, he⟩ := (isTimeoutError_unfold d exc).mp h
      cases hanswer.mpr ⟨e, hwithin.reach, he⟩
    rw [hfalse]
    exact hn m hm

end ExceptionGraph

end Serverless.Runtime
