import ConsoleKit.Proofs.Files.Directories
import Mathlib

/-!
# Directories that are new

The directories that a file system has and an earlier one does not have. Along file systems that grow their numbers add up
(`encard_newDirectories_trans`); a call that makes a directory adds one, and a call that writes a file adds none.
-/

namespace ConsoleKit.FileSystem

variable {files files' files'' : FileSystem} {path : Path} {place : Location} {node : Node}

theorem get?_eq_directory_iff {mode : Mode} :
    files.get? place = some (.directory mode) ↔ files.bare? place = some (.directory mode []) := by
  constructor
  · intro h
    obtain ⟨node, hnode, hentry⟩ := Option.map_eq_some_iff.1 h
    cases node <;> cases hentry
    exact bare?_of_node? hnode
  · exact get?_of_bare?

/-- The places of the directories of one file system at which another one has no directory. -/
def newDirectories (files files' : FileSystem) : Set Location :=
  {place | (∃ mode, files'.get? place = some (.directory mode)) ∧ ∀ mode, files.get? place ≠ some (.directory mode)}

theorem mem_newDirectories_iff : place ∈ newDirectories files files' ↔
    (∃ mode, files'.bare? place = some (.directory mode [])) ∧ ∀ mode, files.bare? place ≠ some (.directory mode []) := by
  simp only [newDirectories, Set.mem_ofPred_eq, get?_eq_directory_iff, ne_eq]

@[simp]
theorem newDirectories_self (files : FileSystem) : newDirectories files files = ∅ := by
  refine Set.eq_empty_iff_forall_notMem.2 fun place hplace => ?_
  obtain ⟨⟨mode, hmode⟩, hnone⟩ := hplace
  exact hnone mode hmode

/-- A directory stays one. -/
theorem Grows.bare?_directory (h : Grows files files') {mode : Mode} (hmode : files.bare? place = some (.directory mode [])) :
    files'.bare? place = some (.directory mode []) := by
  obtain ⟨node, hnode, hkept⟩ := h.kept place _ hmode
  cases hkept
  exact hnode

theorem newDirectories_trans (h : Grows files files') (h' : Grows files' files'') :
    newDirectories files files'' = newDirectories files files' ∪ newDirectories files' files'' := by
  ext place
  simp only [Set.mem_union, mem_newDirectories_iff]
  constructor
  · rintro ⟨hnew, hold⟩
    by_cases hmiddle : ∃ mode, files'.bare? place = some (.directory mode [])
    · exact .inl ⟨hmiddle, hold⟩
    · exact .inr ⟨hnew, fun mode hmode => hmiddle ⟨mode, hmode⟩⟩
  · rintro (⟨⟨mode, hmode⟩, hold⟩ | ⟨hnew, hmiddle⟩)
    · exact ⟨⟨mode, h'.bare?_directory hmode⟩, hold⟩
    · exact ⟨hnew, fun mode hmode => hmiddle mode (h.bare?_directory hmode)⟩

/-- What is new first and what is new then is different. -/
theorem disjoint_newDirectories : Disjoint (newDirectories files files') (newDirectories files' files'') := by
  refine Set.disjoint_left.2 fun place hfirst hthen => ?_
  obtain ⟨⟨mode, hmode⟩, -⟩ := hfirst
  exact hthen.2 mode hmode

theorem encard_newDirectories_trans (h : Grows files files') (h' : Grows files' files'') :
    (newDirectories files files'').encard =
      (newDirectories files files').encard + (newDirectories files' files'').encard := by
  rw [newDirectories_trans h h', Set.encard_union_eq disjoint_newDirectories]

/-! ## One change -/

theorem PutAt.newDirectories_directory {mode : Mode} (h : PutAt files files' place (.directory mode []))
    (hnone : files.bare? place = none) : newDirectories files files' = {place} := by
  ext place'
  rw [mem_newDirectories_iff, Set.mem_singleton_iff, h.bare?_eq]
  by_cases hplace : place' = place
  · subst hplace
    simp [hnone]
  · simp [hplace]

theorem PutAt.newDirectories_of_ne (h : PutAt files files' place node) (hnode : ∀ mode, node ≠ .directory mode []) :
    newDirectories files files' = ∅ := by
  refine Set.eq_empty_iff_forall_notMem.2 fun place' hplace' => ?_
  rw [mem_newDirectories_iff, h.bare?_eq] at hplace'
  obtain ⟨⟨mode, hmode⟩, hold⟩ := hplace'
  split at hmode
  · cases hmode
    exact hnode mode rfl
  · exact hold mode hmode

theorem encard_newDirectories_makeDirectory (h : files.makeDirectory path = .ok files') :
    (newDirectories files files').encard = 1 := by
  obtain ⟨vacancy, -, hnone, hput, -⟩ := makeDirectory_spec h
  rw [hput.newDirectories_directory hnone, Set.encard_singleton]

end ConsoleKit.FileSystem
