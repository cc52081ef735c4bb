import ConsoleKit.Proofs.Deployment.Conflicts

/-!
# Which path a failed deployment names

Among directories and regular files a call fails only because of what is in the target, or on the way to it. A directory
that cannot be made is named by its own path. A file that cannot be copied is named by its path in the source, although
nothing is wrong with it there; so these failures, and no others, name nothing of the target (`deploy_blames`).
-/

namespace ConsoleKit

open FileSystem

namespace Deployment

variable {files : FileSystem} {order : ListingOrder} {source target path : Path} {location : Location}
  {names : List FileName} {progress : Progress} {failure : Failure}

/-- A path is the target, an ancestor of it, or the path of something below it. -/
def OfTarget (target path : Path) : Prop :=
  path ∈ target.ancestors ∨ ∃ names, path = target.joinAll names

/-- What is at a path hinders the deployment, and the failure that comes of it. -/
inductive Hinders (files : FileSystem) (source target : Path) : Path → Failure → Prop where
  /-- A file is on the way to the target. -/
  | way {path : Path} {data : FileData} (hpath : path ∈ target.properAncestors) (hfile : files.stat path = .ok (.file data)) :
      Hinders files source target path (.call .create target .notDirectory)
  /-- An entry of the target is of the wrong kind. -/
  | entry {path : Path} {failure : Failure} (hclash : Clash files source target path failure) :
      Hinders files source target path failure

/-- Nothing of the source is in the way. -/
theorem Hinders.ofTarget (h : Hinders files source target path failure) : OfTarget target path := by
  cases h with
  | way hpath _ => exact .inl (.tail _ hpath)
  | entry hclash =>
    cases hclash with
    | directoryBelowFile _ _ => exact .inr ⟨_, rfl⟩
    | fileBelowFile _ _ => exact .inr ⟨_, rfl⟩
    | fileOntoDirectory _ _ => exact .inr ⟨_, rfl⟩

namespace OrdinaryCall

/-- If the target cannot be provided, a file is on the way to it. -/
theorem hinders_of_provideDirectory (h : OrdinaryCall files source target location names)
    (hfail : provideDirectory target ⟨files, ⟨0, 0⟩⟩ = .fail failure progress) :
    ∃ path, Hinders files source target path failure := by
  by_cases habove : ∀ path ∈ target.properAncestors, ∀ data, files.stat path ≠ .ok (.file data)
  · obtain ⟨progress', hok⟩ := h.provides habove
    rw [hfail] at hok
    cases hok
  · push Not at habove
    obtain ⟨path, hpath, data, hfile⟩ := habove
    obtain ⟨front, name, after, rfl, hkind⟩ := h.file_on_the_way hpath hfile
    have hblocked : provideDirectory target ⟨files, ⟨0, 0⟩⟩ =
        .fail (.call .create target .notDirectory) ⟨files, ⟨0, 0⟩⟩ :=
      provideDirectory_below_file h.denotes.spells (h.ordinary.linkFree location) h.denotes.accepted hkind
    rw [hblocked] at hfail
    cases hfail
    exact ⟨path, .way hpath hfile⟩

/-- A path of the target leads to the place of the target, to one above it or to one below it. -/
theorem place_of_ofTarget (h : OrdinaryCall files source target location names) (hpath : OfTarget target path) {spot : Spot}
    (hfind : files.find path = .ok spot) :
    spot.location <:+ names.reverse ++ location ∨ names.reverse ++ location <:+ spot.location := by
  have hfree := h.ordinary.linkFree location
  rcases hpath with hancestor | ⟨names', rfl⟩
  · rcases List.mem_cons.1 hancestor with rfl | hparent
    · obtain ⟨node, -, rfl⟩ := h.denotes.spells.find_inv hfree hfind
      exact .inl List.suffix_rfl
    · obtain ⟨hbegins, front, name, after, rfl, hsteps⟩ := Path.mem_properAncestors h.denotes.steps hparent
      obtain ⟨mode, entries, horigin⟩ := h.denotes.origin
      obtain ⟨node, -, rfl⟩ := hfree.find_beginning h.denotes.accepted horigin hbegins hsteps hfind
      rw [List.reverse_append, List.append_assoc]
      exact .inl (List.suffix_append _ _)
  · obtain ⟨node, -, rfl⟩ := (h.denotes.spells.joinAll names').find_inv hfree hfind
    rw [List.reverse_append, List.append_assoc]
    exact .inr (List.suffix_append _ _)

/-- No file of the source has a path of the target. -/
theorem not_ofTarget (h : OrdinaryCall files source target location names) (hsource : files.isDirectory source = true)
    {names' : List FileName} {data : FileData} (hfile : files.stat (source.joinAll names') = .ok (.file data)) :
    ¬ OfTarget target (source.joinAll names') := by
  intro hpath
  obtain ⟨spot, hfind, hentry⟩ := stat_eq_ok_iff.1 hfile
  have hlive : spot.removed = false := by
    cases find_becomes hfind with
    | live => rfl
    | removed => cases hentry
  obtain ⟨base, hbase, hbaseLive, hlocation⟩ := find_joinAll_place (h.ordinary.linkFreeBelow source) hlive hfind
  obtain ⟨⟨place, _, removed⟩, mode, entries, hfound, rfl⟩ := isDirectory_iff_find.1 hsource
  rw [directory_of_find hfound, hfound, Except.ok.injEq] at hbase
  subst hbase
  cases hbaseLive
  obtain ⟨hnotIn, hnotAround⟩ := h.apart place mode entries hfound
  have hplace : place <:+ spot.location := hlocation ▸ List.suffix_append _ _
  rcases h.place_of_ofTarget hpath hfind with hin | haround
  · exact hnotIn (hplace.trans hin)
  · rcases List.suffix_or_suffix_of_suffix hplace haround with hin | haround'
    · exact hnotIn hin
    · exact hnotAround haround'

/-- A failure names a path of the target unless it is that of a copy. -/
theorem path_of_hinders (h : OrdinaryCall files source target location names) (hsource : files.isDirectory source = true)
    (hhinders : Hinders files source target path failure) :
    OfTarget target failure.path ↔ ∀ read reason, failure ≠ .call .copy read reason := by
  cases hhinders with
  | way _ _ => exact iff_of_true (.inl (.head _)) (by simp)
  | entry hclash =>
    cases hclash with
    | directoryBelowFile _ _ => exact iff_of_true (.inr ⟨_, rfl⟩) (by simp)
    | fileBelowFile hfile _ => exact iff_of_false (h.not_ofTarget hsource hfile) fun hcopy => hcopy _ _ rfl
    | fileOntoDirectory hfile _ => exact iff_of_false (h.not_ofTarget hsource hfile) fun hcopy => hcopy _ _ rfl

end OrdinaryCall

/-- If a deployment among directories and regular files fails, a file is on the way to the target, or an entry of the target
is of the wrong kind. The failure names a path of the target unless it is that of a copy. -/
theorem deploy_blames (files : FileSystem) (order : ListingOrder) (source target : Path) (location : Location)
    (names : List FileName) (failure : Failure) (h : OrdinaryCall files source target location names)
    (hsource : files.isDirectory source = true) (hfail : (files.deploy order source target).result = .error failure) :
    (∃ path, OfTarget target path ∧ Hinders files source target path failure) ∧
      (OfTarget target failure.path ↔ ∀ read reason, failure ≠ .call .copy read reason) := by
  have hgoes := deploy_goes files order source target
  generalize files.deploy order source target = outcome at hgoes hfail
  obtain ⟨path, hhinders⟩ : ∃ path, Hinders files source target path failure := by
    cases hgoes with
    | noSource hnot =>
      rw [hsource] at hnot
      cases hnot
    | noTarget _ hprovide =>
      cases hfail
      exact h.hinders_of_provideDirectory hprovide
    | stuck _ _ hhandles hstuck =>
      cases hfail
      obtain ⟨path, hclash⟩ := h.clash_of_stuck hsource hhandles.runs hstuck
      exact ⟨path, .entry hclash⟩
    | done _ _ _ _ => cases hfail
  exact ⟨⟨path, hhinders.ofTarget, hhinders⟩, h.path_of_hinders hsource hhinders⟩

/-- A directory `s` with a file `f` in it, and a directory `t` with a directory `f` in it. -/
def fileAndDirectory : FileSystem :=
  built (oneFile.ensurePath (.ofString "t/f"))

theorem ordinaryCall_fileAndDirectory :
    OrdinaryCall fileAndDirectory (.ofString "s") (.ofString "t") [] [targetName] := by
  have hfind : fileAndDirectory.find (.ofString "s") =
      .ok ⟨[directoryName], .directory 0o755 [(fileName, .file ⟨[0x78], 0o644⟩)], false⟩ := rfl
  exact ordinaryCall_of_checks (by cbv) ⟨rfl, rfl, rfl, _, _, rfl⟩ hfind (by decide) (by cbv)

/-- The directory `t/f` is in the way, and the failure names the file `s/f`. -/
theorem deploy_blames_source : OrdinaryCall fileAndDirectory (.ofString "s") (.ofString "t") [] [targetName] ∧
    fileAndDirectory.isDirectory (.ofString "s") = true ∧
    (fileAndDirectory.deploy .byName (.ofString "s") (.ofString "t")).result =
      .error (.call .copy (.ofString "s/f") .isDirectory) ∧
    ¬ OfTarget (.ofString "t") (.ofString "s/f") := by
  have hresult : (fileAndDirectory.deploy .byName (.ofString "s") (.ofString "t")).result =
      .error (.call .copy (.ofString "s/f") .isDirectory) := by cbv
  obtain ⟨-, hiff⟩ := deploy_blames fileAndDirectory .byName (.ofString "s") (.ofString "t") [] [targetName] _
    ordinaryCall_fileAndDirectory rfl hresult
  exact ⟨ordinaryCall_fileAndDirectory, rfl, hresult, fun hpath => hiff.1 hpath _ _ rfl⟩

end Deployment

end ConsoleKit
