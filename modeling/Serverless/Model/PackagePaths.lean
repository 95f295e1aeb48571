import Serverless.Model.Registry

/-!
# Where packages lie

The path of a package names its owner, its function and its version, one segment each, so
different uploads have different paths. A stored reference leads back to the path it was
made of.
-/
namespace Serverless.Model

open Serverless.Library PosixPath

/-- The digits of an identifier, without the dashes. -/
theorem UUID.filter_str (u : UUID) :
    u.str.toList.filter (fun c => !decide (c = '-')) = Text.hexChars 32 u.toNat := by
  have hlen : (Text.hexChars 32 u.toNat).length = 32 := Text.length_hexChars 32 u.toNat
  have hgroup : ∀ start len, (((Text.hexChars 32 u.toNat).drop start).take len).filter
      (fun c => !decide (c = '-')) = ((Text.hexChars 32 u.toNat).drop start).take len := by
    intro start len
    refine List.filter_eq_self.mpr fun c hc => ?_
    obtain ⟨d, rfl⟩ := Text.mem_hexChars (List.mem_of_mem_drop (List.mem_of_mem_take hc))
    simp [Text.digitChar_ne_dash d]
  generalize hds : Text.hexChars 32 u.toNat = ds at hlen hgroup
  have hjoin : ds.take 8 ++ ((ds.drop 8).take 4 ++ ((ds.drop 12).take 4 ++
      ((ds.drop 16).take 4 ++ (ds.drop 20).take 12))) = ds := by
    have hlast : (ds.drop 20).take 12 = ds.drop 20 := List.take_of_length_le (by simp [hlen])
    have hd : ∀ a b, (ds.drop a).take b ++ ds.drop (a + b) = ds.drop a := by
      intro a b
      rw [← List.drop_drop, List.take_append_drop]
    rw [hlast, hd 16 4, hd 12 4, hd 8 4, List.take_append_drop]
  have hg0 := hgroup 0 8
  rw [List.drop_zero] at hg0
  simp [UUID.str, hds, List.intercalate, List.filter_append, hgroup, hg0, hjoin]

theorem UUID.str_injective {u w : UUID} (h : u.str.toList = w.str.toList) : u = w := by
  have hu := UUID.filter_str u
  rw [h, UUID.filter_str w] at hu
  have hbound : ∀ a : UUID, a.toNat < 16 ^ 32 := fun a => lt_of_lt_of_eq a.isLt (by norm_num)
  exact BitVec.eq_of_toNat_eq (Text.hexChars_injective (hbound u) (hbound w) hu.symm)

/-- An identifier is written with hexadecimal digits and dashes. -/
theorem UUID.mem_str {u : UUID} {c : Char} (h : c ∈ u.str.toList) :
    c = '-' ∨ ∃ d, c = Nat.digitChar d := by
  by_cases hc : c = '-'
  · exact Or.inl hc
  · have hf : c ∈ u.str.toList.filter fun c => !decide (c = '-') :=
      List.mem_filter.mpr ⟨h, by simp [hc]⟩
    rw [UUID.filter_str] at hf
    exact Or.inr (Text.mem_hexChars hf)

theorem UUID.isSegment_str (u : UUID) : IsSegment u.str.toList ∧ u.str.toList ≠ up := by
  refine isSegment_of_plain ?_ ?_ ?_
  · intro hnil
    have hf := UUID.filter_str u
    rw [hnil] at hf
    have hlen := congrArg List.length hf
    rw [Text.length_hexChars] at hlen
    cases hlen
  · intro hm
    rcases UUID.mem_str hm with h | ⟨d, h⟩
    · exact absurd h (by decide)
    · exact Text.digitChar_ne_dot d h.symm
  · intro hm
    rcases UUID.mem_str hm with h | ⟨d, h⟩
    · exact absurd h (by decide)
    · exact Text.digitChar_ne_slash d h.symm

/-- A function name is one segment. -/
theorem isSegment_of_matchesFunctionName {name : String} (h : matchesFunctionName name = true) :
    IsSegment name.toList ∧ name.toList ≠ up := by
  unfold matchesFunctionName at h
  cases hcs : name.toList with
  | nil => simp [hcs] at h
  | cons c rest =>
    simp only [hcs, Bool.and_eq_true, List.all_eq_true] at h
    obtain ⟨⟨hc, -⟩, hrest⟩ := h
    refine isSegment_of_plain (List.cons_ne_nil c rest) ?_ ?_
    · intro hm
      rcases List.mem_cons.mp hm with rfl | hm
      · exact absurd hc (by decide)
      · exact absurd (hrest _ hm) (by decide)
    · intro hm
      rcases List.mem_cons.mp hm with rfl | hm
      · exact absurd hc (by decide)
      · exact absurd (hrest _ hm) (by decide)

theorem toList_versionDirectory (n : Nat) : s!"v{n}".toList = 'v' :: Nat.toDigits 10 n := by
  show ("v" ++ toString n).toList = _
  simp

theorem isSegment_versionDirectory (n : Nat) :
    IsSegment s!"v{n}".toList ∧ s!"v{n}".toList ≠ up := by
  rw [toList_versionDirectory]
  refine isSegment_of_plain (List.cons_ne_nil _ _) ?_ ?_
  · intro hm
    rcases List.mem_cons.mp hm with h | hm
    · exact absurd h (by decide)
    · exact absurd (Nat.isDigit_of_mem_toDigits (by decide) (by decide) hm) (by decide)
  · intro hm
    rcases List.mem_cons.mp hm with h | hm
    · exact absurd h (by decide)
    · exact absurd (Nat.isDigit_of_mem_toDigits (by decide) (by decide) hm) (by decide)

/-- **A stored reference leads back to its path.** -/
theorem resolvePath_storageRef (workspaceRoot : PosixPath) {p : PosixPath} (hp : p.isAbsolute) :
    (resolvePath workspaceRoot (storageRef workspaceRoot p)).resolve = p.resolve := by
  unfold storageRef resolvePath
  cases hr : p.relativeTo workspaceRoot with
  | none =>
    dsimp only
    rw [parse_str, if_pos hp]
  | some q =>
    obtain ⟨-, hq, hparts⟩ := relativeTo_some hr
    have hrel : ¬ q.isAbsolute := fun ha => ha hq
    dsimp only
    rw [parse_str, if_neg hrel]
    rw [resolve_eq_iff, hparts, ← (join_relative workspaceRoot hrel).2]
    exact collapse_collapse _

namespace LocalPackageStorageService

variable {x : LocalPackageStorageService} {ownerId : UUID} {functionName : String}

/-- The four segments of a package below the storage directory. -/
def packageSegments (ownerId : UUID) (functionName : String) (versionNumber : Nat) :
    List (List Char) :=
  [ownerId.str.toList, functionName.toList, s!"v{versionNumber}".toList, "function.zip".toList]

theorem up_not_mem_packageSegments (hname : matchesFunctionName functionName = true) (n : Nat) :
    up ∉ packageSegments ownerId functionName n := by
  intro hm
  simp only [packageSegments, List.mem_cons, List.not_mem_nil, or_false] at hm
  rcases hm with h | h | h | h
  · exact (UUID.isSegment_str ownerId).2 h.symm
  · exact (isSegment_of_matchesFunctionName hname).2 h.symm
  · exact (isSegment_versionDirectory n).2 h.symm
  · exact absurd h (by decide)

theorem packagePath_parts (hname : matchesFunctionName functionName = true) (n : Nat) :
    (x.packagePath ownerId functionName n).root = x.packageStorageDir.root ∧
    (x.packagePath ownerId functionName n).parts =
      x.packageStorageDir.parts ++ packageSegments ownerId functionName n := by
  have hzip : IsSegment "function.zip".toList := ⟨by decide, by decide, by decide⟩
  obtain ⟨ho, ho'⟩ := join_single x.packageStorageDir (UUID.isSegment_str ownerId).1
  obtain ⟨hf, hf'⟩ := join_single (x.packageStorageDir.join (.parse ownerId.str))
    (isSegment_of_matchesFunctionName hname).1
  obtain ⟨hv, hv'⟩ := join_single
    ((x.packageStorageDir.join (.parse ownerId.str)).join (.parse functionName))
    (isSegment_versionDirectory n).1
  obtain ⟨hz, hz'⟩ := join_single
    (((x.packageStorageDir.join (.parse ownerId.str)).join (.parse functionName)).join
      (.parse s!"v{n}")) hzip
  constructor
  · rw [packagePath, hz, hv, hf, ho]
  · rw [packagePath, hz', hv', hf', ho']
    simp [packageSegments]

theorem packagePath_absolute (hname : matchesFunctionName functionName = true) (n : Nat) :
    (x.packagePath ownerId functionName n).isAbsolute := by
  unfold isAbsolute
  rw [(packagePath_parts hname n).1]
  exact x.dir_absolute

/-- **Different uploads have different paths.** -/
theorem packagePath_injective {ownerId' : UUID} {functionName' : String} {n n' : Nat}
    (hname : matchesFunctionName functionName = true)
    (hname' : matchesFunctionName functionName' = true)
    (h : (x.packagePath ownerId functionName n).resolve =
      (x.packagePath ownerId' functionName' n').resolve) :
    ownerId = ownerId' ∧ functionName = functionName' ∧ n = n' := by
  rw [resolve_eq_iff, (packagePath_parts hname n).2, (packagePath_parts hname' n').2,
    collapse_append _ (up_not_mem_packageSegments hname n),
    collapse_append _ (up_not_mem_packageSegments hname' n')] at h
  have hs := List.append_cancel_left h
  simp only [packageSegments, List.cons.injEq, and_true] at hs
  obtain ⟨ho, hf, hv⟩ := hs
  rw [toList_versionDirectory, toList_versionDirectory, List.cons.injEq] at hv
  exact ⟨UUID.str_injective ho, String.toList_inj.mp hf, Text.toDigits_injective hv.2⟩

/-- The package storage directory as a process with another workspace finds it. -/
def storageDirFrom (x : LocalPackageStorageService) (workspaceRoot : PosixPath) : PosixPath :=
  resolvePath workspaceRoot (storageRef x.workspaceRoot x.packageStorageDir)

/-- The workspace of the API is not inside its own package storage directory. -/
def WorkspaceOutside (x : LocalPackageStorageService) : Prop :=
  ¬ (x.packageStorageDir.root = x.workspaceRoot.root ∧
    x.packageStorageDir.parts <+: x.workspaceRoot.parts ∧
    x.packageStorageDir.parts ≠ x.workspaceRoot.parts)

instance (x : LocalPackageStorageService) : Decidable x.WorkspaceOutside :=
  inferInstanceAs (Decidable (¬ (_ ∧ _ ∧ _)))

/-- Of two prefixes of a list the shorter is a prefix of the longer. -/
private theorem not_prefix_append {R D segs : List (List Char)} (hR : ¬ R <+: D)
    (hD : ¬ (D <+: R ∧ D ≠ R)) : ¬ R <+: D ++ segs := by
  intro hp
  rcases List.prefix_or_prefix_of_prefix hp (List.prefix_append D segs) with h | h
  · exact hR h
  · exact hD ⟨h, fun he => hR (he ▸ List.prefix_refl _)⟩

/-- **Wherever the workspace is, an uploaded package is found under its four segments below the
storage directory.** -/
theorem resolvePath_package (workspaceRoot : PosixPath) (hout : x.WorkspaceOutside)
    (hname : matchesFunctionName functionName = true) (n : Nat) :
    collapse (resolvePath workspaceRoot
        (storageRef x.workspaceRoot (x.packagePath ownerId functionName n))).parts =
      collapse (x.storageDirFrom workspaceRoot).parts ++
        packageSegments ownerId functionName n := by
  have hroot : (x.packagePath ownerId functionName n).root = x.packageStorageDir.root :=
    (packagePath_parts hname n).1
  have hparts : (x.packagePath ownerId functionName n).parts =
      x.packageStorageDir.parts ++ packageSegments ownerId functionName n :=
    (packagePath_parts hname n).2
  have hup : up ∉ packageSegments ownerId functionName n := up_not_mem_packageSegments hname n
  have habs : (x.packagePath ownerId functionName n).isAbsolute := packagePath_absolute hname n
  unfold storageDirFrom storageRef
  cases hd : x.packageStorageDir.relativeTo x.workspaceRoot with
  | some d =>
    obtain ⟨hdr, hdrel, hdparts⟩ := relativeTo_some hd
    have hpp : (x.packagePath ownerId functionName n).parts =
        x.workspaceRoot.parts ++ (d.parts ++ packageSegments ownerId functionName n) := by
      rw [hparts, hdparts, List.append_assoc]
    obtain ⟨p, hp, hpparts⟩ := relativeTo_append (hroot.trans hdr) hpp
    have hprel : ¬ p.isAbsolute := fun ha => ha (relativeTo_some hp).2.1
    have hdabs : ¬ d.isAbsolute := fun ha => ha hdrel
    rw [hp]
    simp only [resolvePath, parse_str, if_neg hprel, if_neg hdabs]
    simp only [resolve, (join_relative workspaceRoot hprel).2,
      (join_relative workspaceRoot hdabs).2, collapse_collapse, hpparts]
    rw [← List.append_assoc, collapse_append _ hup]
  | none =>
    have hnone : (x.packagePath ownerId functionName n).relativeTo x.workspaceRoot = none := by
      unfold relativeTo at hd ⊢
      rw [if_neg]
      rintro ⟨hr, hpre⟩
      rw [hroot] at hr
      rw [hparts] at hpre
      have hnot : ¬ x.workspaceRoot.parts <+: x.packageStorageDir.parts := by
        intro hx
        rw [if_pos ⟨hr, hx⟩] at hd
        cases hd
      exact not_prefix_append hnot (fun hx => hout ⟨hr, hx⟩) hpre
    rw [hnone]
    simp only [resolvePath, parse_str, if_pos x.dir_absolute,
      if_pos habs]
    rw [hparts, collapse_append _ hup]

end LocalPackageStorageService

end Serverless.Model
