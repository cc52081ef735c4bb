import ConsoleKit.Proofs.Deployment.Mirroring

/-!
# What a failed deployment leaves

Wherever a deployment stops, every file of the source has at its place below the target what was there before, or a whole
copy (`deploy_leaves_old_or_new`): a failure comes before the call that fails has changed anything.
-/

namespace ConsoleKit

open FileSystem

namespace Deployment

variable {files made final : FileSystem} {source target : Path} {names : List FileName} {data : FileData}

/-- A path leads to the same in two file systems, or nowhere in both. -/
def SameAt (files files' : FileSystem) (path : Path) : Prop :=
  ∀ entry, files'.stat path = .ok entry ↔ files.stat path = .ok entry

/-- What may be at the path of a file below the target after a deployment that failed. -/
inductive OldOrNew (files : FileSystem) (target path : Path) (data : FileData) (final : FileSystem) : Prop where
  /-- What was there before, or nothing as before. -/
  | old (hsame : SameAt files final path)
  /-- Nothing was there before, and there is what came with the missing part of the target. -/
  | made (hnew : ¬ files.Leads path) (hsame : SameAt (files.withDirectory target) final path)
  /-- A copy of the file. -/
  | copied (hcopy : final.stat path = .ok (.file data.copy))

theorem oldOrNew_of_sameAt {path : Path} (h : SameAt (files.withDirectory target) final path) :
    OldOrNew files target path data final := by
  by_cases hleads : files.Leads path
  · obtain ⟨spot, hfind⟩ := hleads
    have hstat : files.stat path = .ok (files.entryOf spot.node) := stat_eq_ok_iff.2 ⟨spot, hfind, rfl⟩
    have hmade := (withDirectory_madeAt files target).stat hstat
    refine .old fun entry => ?_
    rw [h entry, hmade, hstat]
  · exact .made hleads h

/-- A place below the target that has not changed shows what it showed. -/
theorem sameAt_of_bare? {path : Path} (hplain : made.PlainBelow path) (hconfined : Confined source path made final)
    (hne : names ≠ []) (h : ∀ place, made.Below path names place → final.bare? place = made.bare? place) :
    SameAt made final (path.joinAll names) := by
  intro entry
  have hplain' := hconfined.plainBelow hplain
  constructor
  · intro hstat
    obtain ⟨spot, hfind, -⟩ := stat_eq_ok_iff.1 hstat
    obtain ⟨place, hbelow', -⟩ := below_of_walk hplain'.linkFreeBelow hne (find_eq_ok_iff.1 hfind)
    have hbelow := hconfined.below hbelow'
    rw [hbelow'.stat_iff hplain'.linkFreeBelow, get?_congr (h place hbelow) hconfined.shared] at hstat
    exact (hbelow.stat_iff hplain.linkFreeBelow).2 hstat
  · intro hstat
    obtain ⟨spot, hfind, -⟩ := stat_eq_ok_iff.1 hstat
    obtain ⟨place, hbelow, -⟩ := below_of_walk hplain.linkFreeBelow hne (find_eq_ok_iff.1 hfind)
    rw [hbelow.stat_iff hplain.linkFreeBelow, ← get?_congr (h place hbelow) hconfined.shared] at hstat
    exact ((hbelow.grows hconfined.grows).stat_iff hplain'.linkFreeBelow).2 hstat

/-- At every moment of a run, a file of the source has an old or a new file at its place below the target. -/
theorem oldOrNew_of_runs (hsep : files.Separated source target) (hplain : (files.withDirectory target).PlainBelow target)
    (hrun : Runs source target (files.withDirectory target) final) (hne : names ≠ [])
    (hfile : files.stat (source.joinAll names) = .ok (.file data)) :
    OldOrNew files target (target.joinAll names) data final := by
  have hmirrors := mirrors_of_runs hsep hplain hrun
  by_cases hchange : ∃ place, (files.withDirectory target).Below target names place ∧
      final.bare? place ≠ (files.withDirectory target).bare? place
  · obtain ⟨place, hbelow, hchanged⟩ := hchange
    rcases hmirrors.place names place hbelow (leads_of_stat hfile) with hsame | hmirrored
    · exact absurd hsame hchanged
    · have hnew := (hmirrored.of_file hfile).2
      have hplain' := hmirrors.confined.plainBelow hplain
      exact .copied (((hbelow.grows hmirrors.confined.grows).stat_iff hplain'.linkFreeBelow).2 (get?_of_bare? hnew))
  · refine oldOrNew_of_sameAt (sameAt_of_bare? hplain hmirrors.confined hne fun place hbelow => ?_)
    exact Classical.not_not.1 fun hchanged => hchange ⟨place, hbelow, hchanged⟩

/-- A deployment that fails leaves at the place of every file of the source what was there before or a copy of the file,
and nothing has changed at all if the source is no directory. The first also holds for one that succeeds. -/
theorem deploy_leaves_old_or_new (files : FileSystem) (order : ListingOrder) (source target : Path)
    (hsep : files.Separated source target) (hplain : (files.withDirectory target).PlainBelow target) :
    (∀ names data, files.stat (source.joinAll names) = .ok (.file data) →
      OldOrNew files target (target.joinAll names) data (files.deploy order source target).files) ∧
    ((∀ mode, files.stat source ≠ .ok (.directory mode)) →
      (∃ failure, (files.deploy order source target).result = .error failure) ∧
        (files.deploy order source target).files = files) := by
  have hgoes := deploy_goes files order source target
  constructor
  · intro names data hfile
    have hrun : (files.deploy order source target).files = files ∨ names ≠ [] ∧
        Runs source target (files.withDirectory target) (files.deploy order source target).files := by
      have hne : files.isDirectory source = true → names ≠ [] := by
        rintro hsource rfl
        obtain ⟨mode, hstat⟩ := isDirectory_iff.1 hsource
        rw [Path.joinAll_nil, hstat] at hfile
        cases hfile
      generalize files.deploy order source target = outcome at hgoes
      cases hgoes with
      | noSource _ => exact .inl rfl
      | noTarget hsource _ => exact .inr ⟨hne hsource, .refl⟩
      | stuck hsource _ hhandles _ => exact .inr ⟨hne hsource, hhandles.runs⟩
      | done hsource _ hhandles _ => exact .inr ⟨hne hsource, hhandles.runs⟩
    rcases hrun with hsame | ⟨hne, hrun⟩
    · rw [hsame]
      exact .old fun entry => Iff.rfl
    · exact oldOrNew_of_runs hsep hplain hrun hne hfile
  · intro hsource
    have hnot : files.isDirectory source ≠ true := by
      intro hdirectory
      obtain ⟨mode, hstat⟩ := isDirectory_iff.1 hdirectory
      exact hsource mode hstat
    generalize files.deploy order source target = outcome at hgoes
    cases hgoes with
    | noSource _ => exact ⟨⟨_, rfl⟩, rfl⟩
    | noTarget hdirectory _ => exact absurd hdirectory hnot
    | stuck hdirectory _ _ _ => exact absurd hdirectory hnot
    | done hdirectory _ _ _ => exact absurd hdirectory hnot

/-! ## Why nothing simpler holds -/

/-- A deployment of `s` into `t` that fails at `s/d/g`, after a program that runs as its owner was copied. -/
def interrupted : FileSystem :=
  built do
    let files ← ownersProgram.writeFile (.ofString "s/d/g") [0x79]
    files.ensurePath (.ofString "t/d/g")

/-- The source in `interrupted`. -/
def interruptedSource : Node :=
  .directory 0o755 [(⟨[0x64], by decide⟩, .directory 0o755 [(⟨[0x67], by decide⟩, .file ⟨[0x79], 0o644⟩)]),
    (fileName, .file ⟨[0x78], 0o4755⟩)]

/-- The target in `interrupted`. -/
def interruptedTarget : Node :=
  .directory 0o755 [(⟨[0x64], by decide⟩, .directory 0o755 [(⟨[0x67], by decide⟩, .directory 0o755 [])])]

/-- The path of a directory that is missing in `oneFile`. -/
def missingDetour : Path :=
  .ofString "a/f/.."

/-- A file system with a file at `s/f` and a device at `s/d/n`. -/
def deviceInSource : FileSystem :=
  built (oneFile.makeDevice (.ofString "s/d/n"))

/-- What a deployment that fails would leave of a file of the source, if some separation of source and target sufficed for
it: what was there before, or another file. -/
def LeavesOldOrNew (apart : FileSystem → Path → Path → Prop) (related : FileData → FileData → Prop) : Prop :=
  ∀ (files : FileSystem) (order : ListingOrder) (source target : Path) (failure : Failure),
    apart files source target → (files.deploy order source target).result = .error failure →
    ∀ names data, files.stat (source.joinAll names) = .ok (.file data) →
      SameAt files (files.deploy order source target).files (target.joinAll names) ∨
        ∃ data', (files.deploy order source target).files.stat (target.joinAll names) = .ok (.file data') ∧
          related data data'

theorem find_interruptedTarget : interrupted.find (.ofString "t") = .ok ⟨[targetName], interruptedTarget, false⟩ := rfl

theorem separated_interrupted : interrupted.Separated (.ofString "s") (.ofString "t") := by
  have hsource : interrupted.find (Path.ofString "s").directory = .ok ⟨[directoryName], interruptedSource, false⟩ := rfl
  exact (separatedAtFirst_s_t hsource find_interruptedTarget rfl rfl).separated find_interruptedTarget

theorem plainBelow_interrupted : (interrupted.withDirectory (.ofString "t")).PlainBelow (.ofString "t") :=
  plainBelow_made find_interruptedTarget rfl

theorem deploy_leaves_copy_interrupted : interrupted.Separated (.ofString "s") (.ofString "t") ∧
    (interrupted.withDirectory (.ofString "t")).PlainBelow (.ofString "t") ∧
    (∃ failure, (interrupted.deploy .byName (.ofString "s") (.ofString "t")).result = .error failure) ∧
    interrupted.stat ((Path.ofString "s").joinAll [fileName]) = .ok (.file ⟨[0x78], 0o4755⟩) ∧
    OldOrNew interrupted (.ofString "t") ((Path.ofString "t").joinAll [fileName]) ⟨[0x78], 0o4755⟩
      (interrupted.deploy .byName (.ofString "s") (.ofString "t")).files := by
  have hfile : interrupted.stat ((Path.ofString "s").joinAll [fileName]) = .ok (.file ⟨[0x78], 0o4755⟩) := rfl
  have hleaves := deploy_leaves_old_or_new interrupted .byName (.ofString "s") (.ofString "t") separated_interrupted
    plainBelow_interrupted
  exact ⟨separated_interrupted, plainBelow_interrupted, ⟨_, rfl⟩, hfile, hleaves.1 [fileName] _ hfile⟩

theorem find_missingDetour : (oneFile.withDirectory missingDetour).find missingDetour.directory =
    .ok ⟨[⟨[0x61], by decide⟩], .directory 0o755 [(fileName, .directory 0o755 [])], false⟩ := rfl

theorem separated_missingDetour : oneFile.Separated (.ofString "s") missingDetour := by
  have hsource : oneFile.find (Path.ofString "s").directory =
      .ok ⟨[directoryName], .directory 0o755 [(fileName, .file ⟨[0x78], 0o644⟩)], false⟩ := rfl
  exact separated_of_places hsource rfl rfl (not_suffix_of_clearOf rfl) find_missingDetour rfl rfl (by decide) (by decide)

theorem plainBelow_missingDetour : (oneFile.withDirectory missingDetour).PlainBelow missingDetour :=
  plainBelow_of_isPlain find_missingDetour rfl

/-- A program that runs as its owner is not left as it was, and does not run as its owner any more either. -/
theorem not_leavesOldOrNew_mode : ¬ LeavesOldOrNew (fun files source target => files.Separated source target ∧
    (files.withDirectory target).PlainBelow target) (· = ·) := by
  intro h
  rcases h interrupted .byName (.ofString "s") (.ofString "t") _ ⟨separated_interrupted, plainBelow_interrupted⟩ rfl
    [fileName] ⟨[0x78], 0o4755⟩ rfl with hsame | ⟨data', hstat, hdata⟩
  · have hnew : (interrupted.deploy .byName (.ofString "s") (.ofString "t")).files.stat
        ((Path.ofString "t").joinAll [fileName]) = .ok (.file ⟨[0x78], 0o755⟩) := rfl
    cases (hsame _).1 hnew
  · cases hdata
    cases hstat

/-- The directories that are made for a target may be in the way of its files. -/
theorem not_leavesOldOrNew_made : ¬ LeavesOldOrNew (fun files source target => files.Separated source target ∧
    (files.withDirectory target).PlainBelow target) (fun _ _ => True) := by
  intro h
  rcases h oneFile .byName (.ofString "s") missingDetour _ ⟨separated_missingDetour, plainBelow_missingDetour⟩ rfl
    [fileName] ⟨[0x78], 0o644⟩ rfl with hsame | ⟨data', hstat, -⟩
  · have hnew : (oneFile.deploy .byName (.ofString "s") missingDetour).files.stat (missingDetour.joinAll [fileName]) =
        .ok (.directory 0o755) := rfl
    cases (hsame _).1 hnew
  · cases hstat

/-- A target that turns out to be the source once its missing part is made empties the files of the source. -/
theorem not_leavesOldOrNew_atFirst : ¬ LeavesOldOrNew (fun files source target => files.SeparatedAtFirst source target ∧
    files.PlainBelow target) (fun data data' => data'.content = data.content) := by
  intro h
  have hsource : deviceInSource.find (Path.ofString "s").directory = .ok ⟨[directoryName], .directory 0o755
      [(⟨[0x64], by decide⟩, .directory 0o755 [(⟨[0x6E], by decide⟩, .device)]), (fileName, .file ⟨[0x78], 0o644⟩)],
      false⟩ := rfl
  have hmissing : ∀ base, deviceInSource.find detour.directory ≠ .ok base := by
    intro base hbase
    cases hbase
  have hapart := separatedAtFirst_of_unmade hsource rfl rfl (not_suffix_of_clearOf rfl) hmissing
  rcases h deviceInSource .byName (.ofString "s") detour _ ⟨hapart, fun base hbase => absurd hbase (hmissing base)⟩ rfl
    [fileName] ⟨[0x78], 0o644⟩ rfl with hsame | ⟨data', hstat, hcontent⟩
  · have hnew : (deviceInSource.deploy .byName (.ofString "s") detour).files.stat (detour.joinAll [fileName]) =
        .ok (.file ⟨[], 0o644⟩) := rfl
    cases (hsame _).1 hnew
  · cases hstat
    cases hcontent

theorem not_leavesOldOrNew :
    (¬ LeavesOldOrNew (fun files source target => files.Separated source target ∧
      (files.withDirectory target).PlainBelow target) (· = ·)) ∧
    (¬ LeavesOldOrNew (fun files source target => files.Separated source target ∧
      (files.withDirectory target).PlainBelow target) fun _ _ => True) ∧
    ¬ LeavesOldOrNew (fun files source target => files.SeparatedAtFirst source target ∧ files.PlainBelow target)
      fun data data' => data'.content = data.content :=
  ⟨not_leavesOldOrNew_mode, not_leavesOldOrNew_made, not_leavesOldOrNew_atFirst⟩

end Deployment

end ConsoleKit
