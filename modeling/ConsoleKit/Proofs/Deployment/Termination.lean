import ConsoleKit.Proofs.Deployment.PlainTrees
import ConsoleKit.Proofs.Deployment.WorkList
import Mathlib.Data.Set.Finite.List

/-!
# Every deployment comes to an end

A source has a tree of names that lead to something in it, links followed. A link to a directory above it makes the tree
infinite (`infinite_of_cycle`), although there are finitely many files. A deployment that succeeds has handled everything
in the tree; because it ends after finitely many turns, one with an infinite tree cannot succeed (`deploy_terminates`).
-/

namespace ConsoleKit

open Deployment

namespace FileSystem

open ConsoleKit.Path (along)

/-! ## The tree of a source -/

/-- Names lead from one place to another, links followed, however many they are and however long the path is. -/
inductive Unfolds (files : FileSystem) (base : Spot) : List FileName → Spot → Prop where
  | nil : Unfolds files base [] base
  | concat {names : List FileName} {name : FileName} {spot next : Spot} {links : Nat} (h : Unfolds files base names spot)
      (hnext : files.follow .find links spot [.entry name.bytes] = .ok (.found next)) :
      Unfolds files base (names ++ [name]) next

/-- The tree of what is at a path: the names that lead somewhere. -/
def tree (files : FileSystem) (path : Path) : Set (List FileName) :=
  {names | ∃ base spot, files.find path = .ok base ∧ files.Unfolds base names spot}

variable {files files' : FileSystem} {path : Path} {base spot found : Spot} {names front : List FileName} {name : FileName}

theorem Unfolds.concat_inv {next : Spot} (h : files.Unfolds base (names ++ [name]) next) :
    ∃ spot links, files.Unfolds base names spot ∧
      files.follow .find links spot [.entry name.bytes] = .ok (.found next) := by
  generalize hall : names ++ [name] = all at h
  cases h with
  | nil => simp at hall
  | concat h hnext =>
    obtain ⟨rfl, hname⟩ := List.append_inj' hall rfl
    cases hname
    exact ⟨_, _, h, hnext⟩

theorem Unfolds.append {names' : List FileName} {next : Spot} (h : files.Unfolds base names spot)
    (h' : files.Unfolds spot names' next) : files.Unfolds base (names ++ names') next := by
  induction h' with
  | nil => rwa [List.append_nil]
  | concat _ hnext ih =>
    rw [← List.append_assoc]
    exact .concat ih hnext

theorem Unfolds.grows (h : files.Unfolds base names spot) (hgrows : Grows files files') {base' : Spot}
    (hbase : Spot.Becomes files files' base base') :
    ∃ spot', files'.Unfolds base' names spot' ∧ Spot.Becomes files files' spot spot' := by
  induction h with
  | nil => exact ⟨base', .nil, hbase⟩
  | concat _ hnext ih =>
    obtain ⟨spot', hunfolds, hspot⟩ := ih
    obtain ⟨next', hnext', hbecomes⟩ := follow_grows hgrows hspot hnext
    exact ⟨next', .concat hunfolds hnext', hbecomes⟩

/-- A walk along the names arrives where they lead, if it arrives at all. -/
theorem Unfolds.follow_eq {links : Nat} (h : files.Unfolds base names spot)
    (hfollow : files.follow .find links base (along names) = .ok (.found found)) : found = spot := by
  induction h generalizing links found with
  | nil =>
    cases (follow_of_arrived rfl).symm.trans hfollow
    rfl
  | @concat names name spot next links' _ hnext ih =>
    have halong : along (names ++ [name]) = along names ++ [.entry name.bytes] := by simp [along]
    rw [halong] at hfollow
    obtain ⟨middle, links'', hmiddle, hlast⟩ := follow_prefix (by simp) hfollow
    rw [ih hmiddle] at hlast
    cases follow_unique hnext hlast
    rfl

theorem Unfolds.find_eq (h : files.Unfolds base names spot) (hbase : files.find path = .ok base)
    (hfind : files.find (path.joinAll names) = .ok found) : found = spot := by
  by_cases hnil : names = []
  · subst hnil
    have hstay : files.follow .find 0 base [] = .ok (.found base) := follow_of_arrived rfl
    rw [← h.follow_eq hstay]
    exact Except.ok.inj (hfind.symm.trans hbase)
  · have hdirectory := directory_of_find hbase
    obtain ⟨links, hfollow⟩ := follow_of_find_joinAll (hdirectory.symm ▸ hbase) hnil hfind
    exact h.follow_eq hfollow

/-- What the tree had at some moment can be reached ever after, from wherever the names before lead by then. -/
theorem follow_of_mem_tree (h : front ++ [name] ∈ files.tree path) (hgrows : Grows files files')
    (hfind : files'.find (path.joinAll front) = .ok found) :
    ∃ links next, files'.follow .find links found [.entry name.bytes] = .ok (.found next) := by
  obtain ⟨base, next, hbase, hunfolds⟩ := h
  obtain ⟨base', hbase', hbecomes⟩ := find_grows hgrows hbase
  obtain ⟨next', hunfolds', -⟩ := hunfolds.grows hgrows hbecomes
  obtain ⟨spot, links, hfront, hnext⟩ := hunfolds'.concat_inv
  rw [← hfront.find_eq hbase' hfind] at hnext
  exact ⟨links, next', hnext⟩

theorem mem_list_of_mem_tree {listed : List FileName} (h : front ++ [name] ∈ files.tree path) (hgrows : Grows files files')
    (hlist : files'.list (path.joinAll front) = .ok listed) : name ∈ listed := by
  obtain ⟨found, mode, entries, hfind, -, -⟩ := list_inv hlist
  obtain ⟨links, next, hfollow⟩ := follow_of_mem_tree h hgrows hfind
  exact mem_list_of_follow hfind hlist hfollow

theorem isDirectory_of_mem_tree (h : front ++ [name] ∈ files.tree path) (hgrows : Grows files files')
    (hleads : files'.Leads (path.joinAll front)) : files'.isDirectory (path.joinAll front) = true := by
  obtain ⟨found, hfind⟩ := hleads
  obtain ⟨links, next, hfollow⟩ := follow_of_mem_tree h hgrows hfind
  obtain ⟨mode, entries, hnode⟩ := follow_directory (List.cons_ne_nil _ []) hfollow
  exact isDirectory_iff_find.2 ⟨found, mode, entries, hfind, hnode⟩

/-- Names that lead back to where they begin can be repeated, as often as one likes. -/
theorem infinite_of_cycle {loop : List FileName} (hbase : files.find path = .ok base)
    (hfront : files.Unfolds base front spot) (hloop : files.Unfolds spot loop spot) (hne : loop ≠ []) :
    (files.tree path).Infinite := by
  -- Every number of rounds gives other names, because it gives a longer list of them.
  have hrounds : ∀ rounds, files.Unfolds spot (List.replicate rounds loop).flatten spot := by
    intro rounds
    induction rounds with
    | zero => exact .nil
    | succ rounds ih =>
      rw [List.replicate_succ, List.flatten_cons]
      exact hloop.append ih
  have hmem : ∀ rounds, front ++ (List.replicate rounds loop).flatten ∈ files.tree path :=
    fun rounds => ⟨base, spot, hbase, hfront.append (hrounds rounds)⟩
  refine Set.infinite_of_injective_forall_mem ?_ hmem
  intro rounds rounds' heq
  have hlength := congrArg List.length heq
  have hpos := List.length_pos_iff.2 hne
  simp only [List.length_append, List.length_flatten, List.map_replicate, List.sum_replicate_nat] at hlength
  exact Nat.eq_of_mul_eq_mul_right hpos (by omega)

end FileSystem

namespace Deployment

open FileSystem Relation

/-! ## Infinite trees -/

variable {files : FileSystem} {source target : Path} {trace : List (List FileName)} {progress : Progress}

/-- A deployment that handles everything has handled the tree of its source. -/
theorem mem_trace_of_mem_tree (hhandles : Handles ⟨source, target⟩ trace (begun files target) progress)
    (hcomplete : Complete ⟨source, target⟩ [[]] trace (files.withDirectory target) progress.files) :
    ∀ names ∈ files.tree source, names ∈ [] :: trace := by
  intro names hnames
  by_cases hnil : names = []
  · exact hnil ▸ List.mem_cons_self
  · have hmade := (withDirectory_madeAt files target).grows
    refine List.mem_cons_of_mem _ (hcomplete.mem (· ∈ files.tree source) ?_ ?_ ?_ hnil hnames)
    · rintro front name ⟨base, next, hbase, hunfolds⟩ -
      obtain ⟨spot, links, hfront, -⟩ := hunfolds.concat_inv
      exact ⟨base, spot, hbase, hfront⟩
    · -- An entry that was handled leads somewhere, and a walk can only arrive where the tree says.
      intro front name hmem htrace
      exact isDirectory_of_mem_tree hmem (hmade.trans hhandles.runs.grows) (hhandles.leads htrace)
    · intro front name middle listed hmem hrun hlist
      exact mem_list_of_mem_tree hmem (hmade.trans hrun.grows) hlist

/-- A source with an infinite tree makes a deployment fail. -/
theorem deploy_of_infinite (order : ListingOrder) (target : Path) (h : (files.tree source).Infinite) :
    ∃ failure, (files.deploy order source target).result = .error failure := by
  have hgoes := deploy_goes files order source target
  generalize files.deploy order source target = outcome at hgoes ⊢
  cases hgoes with
  | noSource => exact ⟨_, rfl⟩
  | noTarget => exact ⟨_, rfl⟩
  | stuck => exact ⟨_, rfl⟩
  | @done trace progress hsource hprovide hhandles hcomplete =>
    have hfinite := (List.finite_toSet ([] :: trace)).subset (mem_trace_of_mem_tree hhandles hcomplete)
    exact absurd hfinite h

/-! ## The end of a deployment -/

/-- No work list lets the loop go on for ever, and a deployment is what the loop comes to; it fails if the tree of the
source is infinite. -/
theorem deploy_terminates (files : FileSystem) (order : ListingOrder) (source target : Path) :
    (WellFounded fun after before => Turns order before after) ∧
    (∀ progress, files.isDirectory source = true → provideDirectory target ⟨files, ⟨0, 0⟩⟩ = .ok () progress →
      ∃ last attempt, ReflTransGen (Turns order) ⟨[⟨source, target⟩], progress⟩ last ∧
        last.turn order = .ended attempt ∧
        files.deploy order source target =
          ⟨attempt.result.map fun _ => attempt.progress.report, attempt.progress.files⟩) ∧
    ((files.tree source).Infinite → ∃ failure, (files.deploy order source target).result = .error failure) :=
  ⟨wellFounded_turns order, fun _ hsource hprovide => deploy_loop order hsource hprovide,
    deploy_of_infinite order target⟩

/-- A directory `s` with a link `l` to itself. -/
def cyclic : FileSystem :=
  built (FileSystem.empty.makeLink (.ofString "s/l") (.ofString "."))

theorem infinite_tree_cyclic : (cyclic.tree (.ofString "s")).Infinite := by
  have hfind : cyclic.find (.ofString "s") =
      .ok ⟨[directoryName], .directory 0o755 [(linkName, .link (.ofString "."))], false⟩ := rfl
  have hlink : cyclic.follow .find 1 ⟨[directoryName], .directory 0o755 [(linkName, .link (.ofString "."))], false⟩
      [.entry linkName.bytes] =
        .ok (.found ⟨[directoryName], .directory 0o755 [(linkName, .link (.ofString "."))], false⟩) := rfl
  exact infinite_of_cycle hfind .nil (.concat .nil hlink) (List.cons_ne_nil linkName [])

/-- The target is in the source, and is listed when it has got its first entry. -/
theorem deploy_terminates_cyclic : (cyclic.tree (.ofString "s")).Infinite ∧ cyclic.isDirectory (.ofString "s") = true ∧
    ∃ progress, provideDirectory (.ofString "s/t") ⟨cyclic, ⟨0, 0⟩⟩ = .ok () progress ∧
      (∃ last attempt, ReflTransGen (Turns .byName) ⟨[⟨.ofString "s", .ofString "s/t"⟩], progress⟩ last ∧
        last.turn .byName = .ended attempt ∧
        cyclic.deploy .byName (.ofString "s") (.ofString "s/t") =
          ⟨attempt.result.map fun _ => attempt.progress.report, attempt.progress.files⟩) ∧
      ∃ failure, (cyclic.deploy .byName (.ofString "s") (.ofString "s/t")).result = .error failure := by
  obtain ⟨-, hloop, hinfinite⟩ := deploy_terminates cyclic .byName (.ofString "s") (.ofString "s/t")
  have hsource : cyclic.isDirectory (.ofString "s") = true := rfl
  exact ⟨infinite_tree_cyclic, hsource, _, rfl, hloop _ hsource rfl, hinfinite infinite_tree_cyclic⟩

end Deployment

end ConsoleKit
