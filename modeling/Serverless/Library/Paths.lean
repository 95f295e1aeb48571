import Mathlib.Data.List.Infix

/-!
# POSIX paths

Pure paths as Python's `pathlib` has them: a root and a list of segments, none of them
empty, `.` or with a slash in it. Joining, printing, reading back and taking a path
relative to another are lexical. `resolve` folds the `..` segments of an absolute path,
which is what the file system makes of it as long as no link is on the way.
-/
namespace Serverless.Library

inductive PathRoot where
  | relative
  | slash
  | doubleSlash
  deriving DecidableEq

def PathRoot.text : PathRoot → List Char
  | .relative => []
  | .slash => ['/']
  | .doubleSlash => ['/', '/']

def IsSegment (p : List Char) : Prop := p ≠ [] ∧ p ≠ ['.'] ∧ '/' ∉ p

@[ext] structure PosixPath where
  root : PathRoot
  parts : List (List Char)
  segments : ∀ p ∈ parts, IsSegment p
  deriving DecidableEq

namespace PosixPath

def isAbsolute (p : PosixPath) : Prop := p.root ≠ .relative

instance (p : PosixPath) : Decidable p.isAbsolute := inferInstanceAs (Decidable (p.root ≠ .relative))

/-- Two leading slashes are a root of their own, one or more than two are not. -/
def splitRoot : List Char → PathRoot × List Char
  | '/' :: '/' :: '/' :: rest => (.slash, '/' :: '/' :: rest)
  | '/' :: '/' :: rest => (.doubleSlash, rest)
  | '/' :: rest => (.slash, rest)
  | rest => (.relative, rest)

def splitParts (cs : List Char) : List (List Char) :=
  (cs.splitOn '/').filter fun p => p ≠ [] ∧ p ≠ ['.']

private theorem not_mem_of_mem_splitOn {cs p : List Char} (h : p ∈ cs.splitOn '/') : '/' ∉ p := by
  induction cs generalizing p with
  | nil =>
    rw [List.splitOn_nil, List.mem_singleton] at h
    simp [h]
  | cons c cs ih =>
    rw [List.splitOn_cons_eq_if_modifyHead] at h
    split at h
    · rcases List.mem_cons.mp h with rfl | h
      · simp
      · exact ih h
    · rename_i hc
      cases hs : cs.splitOn '/' with
      | nil => exact absurd hs (List.splitOn_ne_nil _ _)
      | cons q qs =>
        rw [hs, List.modifyHead_cons] at h
        rcases List.mem_cons.mp h with rfl | h
        · simp only [List.mem_cons, not_or]
          exact ⟨fun he => hc (by simp [← he]), ih (hs ▸ List.mem_cons_self)⟩
        · exact ih (hs ▸ List.mem_cons_of_mem _ h)

theorem isSegment_of_mem_splitParts {cs p : List Char} (h : p ∈ splitParts cs) : IsSegment p := by
  simp only [splitParts, List.mem_filter, decide_eq_true_eq] at h
  exact ⟨h.2.1, h.2.2, not_mem_of_mem_splitOn h.1⟩

/-- `PurePosixPath(text)`. -/
def parse (text : String) : PosixPath where
  root := (splitRoot text.toList).1
  parts := splitParts (splitRoot text.toList).2
  segments := fun _ h => isSegment_of_mem_splitParts h

/-- `str(path)`. -/
def str (p : PosixPath) : String :=
  if p.root = .relative ∧ p.parts = [] then "."
  else String.ofList (p.root.text ++ ['/'].intercalate p.parts)

theorem splitParts_intercalate {ps : List (List Char)} (h : ∀ p ∈ ps, IsSegment p) :
    splitParts (['/'].intercalate ps) = ps := by
  unfold splitParts
  cases ps with
  | nil => rfl
  | cons p ps =>
    rw [List.splitOn_intercalate '/' (fun q hq => (h q hq).2.2) (List.cons_ne_nil p ps)]
    exact List.filter_eq_self.mpr fun q hq => by simpa using ⟨(h q hq).1, (h q hq).2.1⟩

/-- Behind a root, the segments start with something that is not a slash. -/
private theorem splitRoot_text (root : PathRoot) {cs : List Char} (h : cs.head? ≠ some '/') :
    splitRoot (root.text ++ cs) = (root, cs) := by
  cases root with
  | relative =>
    cases cs with
    | nil => rfl
    | cons c cs =>
      have hc : c ≠ '/' := fun he => h (by simp [he])
      simp [PathRoot.text, splitRoot, hc]
  | slash =>
    cases cs with
    | nil => rfl
    | cons c cs =>
      have hc : c ≠ '/' := fun he => h (by simp [he])
      simp [PathRoot.text, splitRoot, hc]
  | doubleSlash =>
    cases cs with
    | nil => rfl
    | cons c cs =>
      have hc : c ≠ '/' := fun he => h (by simp [he])
      simp [PathRoot.text, splitRoot, hc]

private theorem head_intercalate {ps : List (List Char)} (h : ∀ p ∈ ps, IsSegment p) :
    (['/'].intercalate ps).head? ≠ some '/' := by
  cases ps with
  | nil => simp
  | cons p ps =>
    obtain ⟨hne, -, hs⟩ := h p List.mem_cons_self
    cases p with
    | nil => exact absurd rfl hne
    | cons c p =>
      have hc : c ≠ '/' := fun he => hs (by simp [he])
      cases ps <;> simpa [List.intercalate] using hc

/-- **Reading a printed path gives the path back.** -/
theorem parse_str (p : PosixPath) : parse p.str = p := by
  unfold str
  split
  · rename_i h
    obtain ⟨hr, hp⟩ := h
    apply PosixPath.ext
    · rw [hr]; rfl
    · rw [hp]; rfl
  · have hsplit := splitRoot_text p.root (head_intercalate p.segments)
    apply PosixPath.ext
    · simp only [parse, String.toList_ofList, hsplit]
    · simp only [parse, String.toList_ofList, hsplit]
      exact splitParts_intercalate p.segments

/-- `p / q`. -/
def join (p q : PosixPath) : PosixPath :=
  if q.isAbsolute then q
  else
    { root := p.root
      parts := p.parts ++ q.parts
      segments := fun s hs => (List.mem_append.mp hs).elim (p.segments s) (q.segments s) }

theorem join_relative (p : PosixPath) {q : PosixPath} (h : ¬ q.isAbsolute) :
    (p.join q).root = p.root ∧ (p.join q).parts = p.parts ++ q.parts := by
  unfold join
  rw [if_neg h]
  exact ⟨rfl, rfl⟩

/-- `p.relative_to(base)`, or nothing where it raises `ValueError`. -/
def relativeTo (p base : PosixPath) : Option PosixPath :=
  if p.root = base.root ∧ base.parts <+: p.parts then
    some
      { root := .relative
        parts := p.parts.drop base.parts.length
        segments := fun s hs => p.segments s (List.mem_of_mem_drop hs) }
  else none

theorem relativeTo_some {p base q : PosixPath} (h : p.relativeTo base = some q) :
    p.root = base.root ∧ q.root = .relative ∧ p.parts = base.parts ++ q.parts := by
  simp only [relativeTo, Option.ite_none_right_eq_some, Option.some.injEq] at h
  obtain ⟨⟨hr, rest, hp⟩, rfl⟩ := h
  refine ⟨hr, rfl, ?_⟩
  simp only [← hp, List.drop_left]

theorem relativeTo_append {p base : PosixPath} (hr : p.root = base.root)
    {rest : List (List Char)} (hp : p.parts = base.parts ++ rest) :
    ∃ q, p.relativeTo base = some q ∧ q.parts = rest := by
  refine ⟨_, if_pos ⟨hr, rest, hp.symm⟩, ?_⟩
  simp only [hp, List.drop_left]

/-- The segment that stands for the parent directory. -/
def up : List Char := ['.', '.']

/-- Fold the `..` segments; above the root there is only the root. -/
def collapse (ps : List (List Char)) : List (List Char) :=
  ps.foldl (fun acc p => if p = up then acc.dropLast else acc ++ [p]) []

theorem collapse_append (ps : List (List Char)) {qs : List (List Char)} (h : up ∉ qs) :
    collapse (ps ++ qs) = collapse ps ++ qs := by
  induction qs generalizing ps with
  | nil => simp
  | cons q qs ih =>
    have hq : q ≠ up := fun he => h (he ▸ List.mem_cons_self)
    have hstep : collapse (ps ++ [q]) = collapse ps ++ [q] := by
      simp [collapse, List.foldl_append, hq]
    rw [List.append_cons, ih _ fun hm => h (List.mem_cons_of_mem _ hm), hstep, ← List.append_cons]

theorem mem_collapse {ps : List (List Char)} {p : List Char} (h : p ∈ collapse ps) :
    p ∈ ps ∧ p ≠ up := by
  induction ps using List.reverseRecOn with
  | nil => cases h
  | append_singleton ps q ih =>
    simp only [collapse, List.foldl_append, List.foldl_cons, List.foldl_nil] at h
    split at h
    · have hp := ih (List.mem_of_mem_dropLast h)
      exact ⟨List.mem_append_left _ hp.1, hp.2⟩
    · rename_i hq
      rcases List.mem_append.mp h with h | h
      · exact ⟨List.mem_append_left _ (ih h).1, (ih h).2⟩
      · rw [List.mem_singleton.mp h]
        exact ⟨List.mem_append_right _ List.mem_cons_self, hq⟩

theorem collapse_of_not_mem {ps : List (List Char)} (h : up ∉ ps) : collapse ps = ps := by
  simpa [collapse] using collapse_append [] h

/-- Folding twice is folding once. -/
theorem collapse_collapse (ps : List (List Char)) : collapse (collapse ps) = collapse ps :=
  collapse_of_not_mem fun h => (mem_collapse h).2 rfl

/-- `path.resolve()` of an absolute path that meets no links. -/
def resolve (p : PosixPath) : PosixPath where
  root := .slash
  parts := collapse p.parts
  segments := fun s hs => p.segments s (mem_collapse hs).1

/-- A text without dots and slashes is a segment, and not the one for the parent. -/
theorem isSegment_of_plain {p : List Char} (hne : p ≠ []) (hdot : '.' ∉ p) (hslash : '/' ∉ p) :
    IsSegment p ∧ p ≠ up := by
  refine ⟨⟨hne, ?_, hslash⟩, ?_⟩
  · rintro rfl
    exact hdot List.mem_cons_self
  · rintro rfl
    exact hdot List.mem_cons_self

theorem resolve_eq_iff {p q : PosixPath} :
    p.resolve = q.resolve ↔ collapse p.parts = collapse q.parts := by
  constructor
  · exact fun h => congrArg parts h
  · intro h
    apply PosixPath.ext
    · rfl
    · exact h

/-- A relative path of one segment. -/
def single (s : List Char) (h : IsSegment s) : PosixPath where
  root := .relative
  parts := [s]
  segments := fun _ hp => List.mem_singleton.mp hp ▸ h

theorem parse_single {text : String} (h : IsSegment text.toList) :
    parse text = single text.toList h := by
  have hstr : (single text.toList h).str = text := by
    simp [str, single, PathRoot.text]
  rw [← parse_str (single text.toList h), hstr]

/-- Joining a segment appends it. -/
theorem join_single (p : PosixPath) {text : String} (h : IsSegment text.toList) :
    (p.join (parse text)).root = p.root ∧ (p.join (parse text)).parts = p.parts ++ [text.toList] := by
  rw [parse_single h]
  exact join_relative p fun ha => ha rfl

/-- `p` names something strictly below the directory `dir`. -/
def Below (dir p : PosixPath) : Prop :=
  ∃ rest, rest ≠ [] ∧ collapse p.parts = collapse dir.parts ++ rest

end PosixPath

/-- What is stored under each path. Two paths that resolve to the same place share it. -/
def Files (α : Type*) := PosixPath → Option α

namespace Files

variable {α : Type*}

def read (files : Files α) (p : PosixPath) : Option α := files p.resolve

def write (files : Files α) (p : PosixPath) (contents : α) : Files α :=
  fun q => if q = p.resolve then some contents else files q

def remove (files : Files α) (p : PosixPath) : Files α :=
  fun q => if q = p.resolve then none else files q

theorem read_write_same {files : Files α} {p q : PosixPath} {contents : α}
    (h : q.resolve = p.resolve) : (files.write p contents).read q = some contents :=
  if_pos h

theorem read_write_other {files : Files α} {p q : PosixPath} {contents : α}
    (h : q.resolve ≠ p.resolve) : (files.write p contents).read q = files.read q :=
  if_neg h

theorem read_remove_other {files : Files α} {p q : PosixPath} (h : q.resolve ≠ p.resolve) :
    (files.remove p).read q = files.read q :=
  if_neg h

end Files

end Serverless.Library
