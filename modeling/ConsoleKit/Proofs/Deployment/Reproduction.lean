import ConsoleKit.Files.Setup
import ConsoleKit.Proofs.Deployment.Preservation

/-!
# What a deployment brings to its target

After a deployment that succeeds, every regular file of a separated source is at the same place below the target
(`deploy_reproduces`). The file is copied at some moment of the run; the source still has it then, because the run does
not touch the source, and the copy stays, because no other names lead to its place.
-/

namespace ConsoleKit

open FileSystem

/-- A file that runs neither as its owner nor as its group is copied exactly. -/
theorem FileData.copy_of_lt {data : FileData} (h : data.mode < Mode.setGroup) : data.copy = data := by
  unfold FileData.copy
  rw [Mode.written_of_lt h, ite_self]

namespace Deployment

variable {files middle middle' final : FileSystem} {order : ListingOrder} {source target : Path} {names : List FileName}
  {place : Location} {ref : FileRef} {data : FileData}

section Separated

variable (hsep : files.Separated source target) (hplain : (files.withDirectory target).PlainBelow target)

include hsep hplain

/-- A file of the source is the same file with the same data all along the run. -/
theorem readsFile_of_confined (hfile : files.ReadsFile (source.joinAll names) ref data)
    (hconfined : Confined source target (files.withDirectory target) middle) :
    middle.ReadsFile (source.joinAll names) ref data := by
  have hmade := withDirectory_madeAt files target
  have hgrows : files.Grows middle := hmade.grows.trans hconfined.grows
  refine hfile.of_dataOf? hgrows ?_
  obtain ⟨spot, hfind, hregular⟩ := hfile
  have hbecomes := find_becomes hfind
  rcases regular?_eq_some hregular with ⟨hnode, rfl⟩ | ⟨id, hnode, rfl, rfl⟩
  · cases hbecomes with
    | live hlive _ =>
      obtain ⟨hsame, -⟩ := source_of_confined hsep hplain hconfined (reaches_of_find hfind) rfl hlive
      refine dataOf?_own.2 (bare?_eq_file_iff.1 (hsame.trans (bare?_eq_file_iff.2 ?_)))
      exact hlive.trans (congrArg some hnode)
    | removed => cases hnode
  · show some (middle.shared id) = some (files.shared id)
    rw [hconfined.shared, hmade.shared]

/-- No file of the source is at a place below the target. -/
theorem not_own_below (hfile : files.ReadsFile (source.joinAll names) ref data)
    (hbelow : (files.withDirectory target).Below target names place) : ref ≠ .own place := by
  rintro rfl
  have hmade := withDirectory_madeAt files target
  obtain ⟨spot, hfind, hregular⟩ := hfile
  have hbecomes := find_becomes hfind
  rcases regular?_eq_some hregular with ⟨hnode, hplace⟩ | ⟨id, -, hshared, -⟩
  · cases hplace
    cases hbecomes with
    | live hlive _ =>
      obtain ⟨hsame, -⟩ := bare?_withDirectory hsep (reaches_of_find hfind) rfl hlive
      rw [bare?_of_node? hlive] at hsame
      obtain ⟨node, hnode', -⟩ := bare?_eq_some_iff.1 hsame
      exact Apart.not_below hsep.not_same hplain (reaches_of_find hfind) rfl hnode' hbelow
    | removed => cases hnode
  · cases hshared

/-- A copy of a file stays at its place, because no other names lead there. -/
theorem copy_stays (hfile : files.ReadsFile (source.joinAll names) ref data)
    (hbelow : (files.withDirectory target).Below target names place)
    (hconfined : Confined source target (files.withDirectory target) middle)
    (hcopy : middle.bare? place = some (.file data.copy)) (hrun : Runs source target middle final) :
    final.bare? place = some (.file data.copy) := by
  induction hrun with
  | refl => exact hcopy
  | @tail before after hbefore hstep ih =>
    have hbefore' := hconfined.runs hplain hbefore
    rcases step_putAt (hbefore'.plainBelow hplain) hstep with rfl | ⟨names', place', node, hbelow', hfills, hput⟩
    · exact ih
    rw [hput.bare?_eq]
    by_cases hplace : place = place'
    · subst hplace
      have hnames := hbelow.names_eq (hbefore'.below hbelow')
      subst hnames
      rw [if_pos rfl]
      cases hfills with
      | directory _ hnone _ =>
        rw [ih] at hnone
        cases hnone
      | file hsource _ =>
        obtain ⟨rfl, rfl⟩ := (readsFile_of_confined hsep hplain hfile hbefore').unique hsource
        rw [if_neg (not_own_below hsep hplain hfile hbelow)]
    · rw [if_neg hplace]
      exact ih

/-- A regular file of the source that a run has copied is at its place below the target afterwards, unless a device is. -/
theorem stat_of_copied (hfile : files.ReadsFile (source.joinAll names) ref data) (hne : names ≠ [])
    (hdevice : (files.withDirectory target).stat (target.joinAll names) ≠ .ok .device)
    (hrun : Runs source target (files.withDirectory target) middle)
    (hcopy : middle.copyFile (source.joinAll names) (target.joinAll names) = .ok middle')
    (hrest : Runs source target middle' final) : final.stat (target.joinAll names) = .ok (.file data.copy) := by
  have hconfined := confined_of_runs hplain hrun
  have hstep : Step source target middle middle' := .file hne hcopy
  have hconfined' := hconfined.step hplain hstep
  obtain ⟨place, hbelow, ⟨-, hold⟩ | ⟨ref', data', hreads, -, hput⟩⟩ :=
    copyFile_putAt (hconfined.plainBelow hplain) hne hcopy
  · -- The device was there from the beginning.
    refine absurd ?_ hdevice
    have hbelow' := hconfined.below hbelow
    rcases hconfined.bare? place with hsame | ⟨-, -, -, hfilled⟩
    · obtain ⟨node, hnode, hbare⟩ := bare?_eq_some_iff.1 (hsame.symm.trans hold)
      cases node <;> cases hbare
      exact stat_eq_ok_iff.2 ⟨_, hbelow'.find hplain.linkFreeBelow hnode, rfl⟩
    · rw [hold] at hfilled
      generalize (files.withDirectory target).bare? place = old at hfilled
      cases hfilled
  · have hbelow' := hconfined.below hbelow
    obtain ⟨rfl, rfl⟩ := (readsFile_of_confined hsep hplain hfile hconfined).unique hreads
    have hnew : middle'.bare? place = some (.file data'.copy) := by
      rw [hput.bare?_eq, if_pos rfl, if_neg (not_own_below hsep hplain hfile hbelow')]
    have hfinal := copy_stays hsep hplain hfile hbelow' hconfined' hnew hrest
    have hplain' := (hconfined'.runs hplain hrest).plainBelow hplain
    have hbelow'' := hbelow.grows (hstep.grows.trans hrest.grows)
    exact stat_eq_ok_iff.2 ⟨_, hbelow''.find hplain'.linkFreeBelow (bare?_eq_file_iff.1 hfinal), rfl⟩

end Separated

/-- A deployment that succeeds brings every regular file of the source to its place below the target, with its content
and its permission bits, except that a file that has content does not run as its owner or its group any more
(`FileData.copy`). A device at that place stays a device. -/
theorem deploy_reproduces {report : Report} (hsep : files.Separated source target)
    (hplain : (files.withDirectory target).PlainBelow target)
    (h : (files.deploy order source target).result = .ok report)
    (hfile : files.stat (source.joinAll names) = .ok (.file data))
    (hdevice : (files.withDirectory target).stat (target.joinAll names) ≠ .ok .device) :
    (files.deploy order source target).files.stat (target.joinAll names) = .ok (.file data.copy) := by
  obtain ⟨⟨mode, hsource⟩, -, hrun, hcovered⟩ := deploy_covers h
  have hne : names ≠ [] := by
    rintro rfl
    rw [Path.joinAll_nil, hsource] at hfile
    cases hfile
  obtain ⟨ref, hreads⟩ := stat_eq_file_iff.1 hfile
  have hreads' := readsFile_of_confined hsep hplain hreads (.refl source target _)
  have hstat : (files.withDirectory target).stat (source.joinAll names) = .ok (.file data) := stat_eq_file_iff.2 ⟨ref, hreads'⟩
  have hnot : ∀ mode, (files.withDirectory target).stat (source.joinAll names) ≠ .ok (.directory mode) := by
    intro mode hmode
    rw [hstat] at hmode
    cases hmode
  obtain ⟨before, after, hbefore, hcopy, hafter⟩ := (hcovered names hne (leads_of_stat hstat)).file (leads_of_stat hstat) hnot
  exact stat_of_copied hsep hplain hreads hne hdevice hbefore hcopy hafter

theorem deploy_reproduces_twoDirectories : twoDirectories.Separated (.ofString "s") (.ofString "t") ∧
    (twoDirectories.withDirectory (.ofString "t")).PlainBelow (.ofString "t") ∧
    (twoDirectories.deploy .byName (.ofString "s") (.ofString "t")).result = .ok ⟨1, 0⟩ ∧
    twoDirectories.stat ((Path.ofString "s").joinAll [fileName]) = .ok (.file ⟨[0x78], 0o644⟩) ∧
    (twoDirectories.withDirectory (.ofString "t")).stat ((Path.ofString "t").joinAll [fileName]) ≠ .ok .device ∧
    (twoDirectories.deploy .byName (.ofString "s") (.ofString "t")).files.stat ((Path.ofString "t").joinAll [fileName]) =
      .ok (.file ⟨[0x78], 0o644⟩) := by
  have hresult : (twoDirectories.deploy .byName (.ofString "s") (.ofString "t")).result = .ok ⟨1, 0⟩ := rfl
  have hfile : twoDirectories.stat ((Path.ofString "s").joinAll [fileName]) = .ok (.file ⟨[0x78], 0o644⟩) := rfl
  have hdevice : (twoDirectories.withDirectory (.ofString "t")).stat ((Path.ofString "t").joinAll [fileName]) ≠
      .ok .device := by
    intro h
    cases h
  refine ⟨separated_twoDirectories, plainBelow_twoDirectories, hresult, hfile, hdevice, ?_⟩
  exact deploy_reproduces separated_twoDirectories plainBelow_twoDirectories hresult hfile hdevice

/-! ## What a copy may differ in -/

/-- A program that runs as its owner, to be deployed into a directory that is there. -/
def ownersProgram : FileSystem :=
  built do
    let files ← oneFile.setMode (.ofString "s/f") 0o4755
    files.ensurePath (.ofString "t")

/-- A file to be deployed onto a device. -/
def deviceInTarget : FileSystem :=
  built (oneFile.makeDevice (.ofString "t/f"))

/-- What a file of the source and the entry at its place below the target would have in common after a deployment that
succeeds, if source and target had only to be separated at first. -/
def BroughtAtFirst (related : FileData → Entry → Prop) : Prop :=
  ∀ (files : FileSystem) (order : ListingOrder) (source target : Path) (report : Report),
    SeparatedAtFirst files source target → files.PlainBelow target →
    (files.deploy order source target).result = .ok report →
    ∀ names data, files.stat (source.joinAll names) = .ok (.file data) →
      ∃ entry, (files.deploy order source target).files.stat (target.joinAll names) = .ok entry ∧ related data entry

theorem not_broughtAtFirst_content : ¬ BroughtAtFirst fun data entry => ∀ data', entry = .file data' →
    data'.content = data.content := by
  intro h
  obtain ⟨entry, hstat, hrelated⟩ := h oneFile .byName (.ofString "s") detour ⟨1, 3⟩ separatedAtFirst_detour
    plainBelow_detour rfl [fileName] ⟨[0x78], 0o644⟩ rfl
  have hfinal : (oneFile.deploy .byName (.ofString "s") detour).files.stat (detour.joinAll [fileName]) =
      .ok (.file ⟨[], 0o644⟩) := rfl
  cases hfinal.symm.trans hstat
  cases hrelated _ rfl

theorem not_broughtAtFirst_mode : ¬ BroughtAtFirst fun data entry => ∀ data', entry = .file data' →
    data'.mode = data.mode := by
  intro h
  have hsource : ownersProgram.find (Path.ofString "s").directory =
      .ok ⟨[directoryName], .directory 0o755 [(fileName, .file ⟨[0x78], 0o4755⟩)], false⟩ := rfl
  have htarget : ownersProgram.find (.ofString "t") = .ok ⟨[targetName], .directory 0o755 [], false⟩ := rfl
  obtain ⟨entry, hstat, hrelated⟩ := h ownersProgram .byName (.ofString "s") (.ofString "t") ⟨1, 0⟩
    (separatedAtFirst_s_t hsource htarget rfl rfl) (plainBelow_of_isPlain htarget rfl) rfl
    [fileName] ⟨[0x78], 0o4755⟩ rfl
  have hfinal : (ownersProgram.deploy .byName (.ofString "s") (.ofString "t")).files.stat
      ((Path.ofString "t").joinAll [fileName]) = .ok (.file ⟨[0x78], 0o755⟩) := rfl
  cases hfinal.symm.trans hstat
  cases hrelated _ rfl

theorem not_broughtAtFirst_file : ¬ BroughtAtFirst fun _ entry => ∃ data', entry = .file data' := by
  intro h
  have hsource : deviceInTarget.find (Path.ofString "s").directory =
      .ok ⟨[directoryName], .directory 0o755 [(fileName, .file ⟨[0x78], 0o644⟩)], false⟩ := rfl
  have htarget : deviceInTarget.find (.ofString "t") =
      .ok ⟨[targetName], .directory 0o755 [(fileName, .device)], false⟩ := rfl
  obtain ⟨entry, hstat, data', rfl⟩ := h deviceInTarget .byName (.ofString "s") (.ofString "t") ⟨1, 0⟩
    (separatedAtFirst_s_t hsource htarget rfl rfl) (plainBelow_of_isPlain htarget rfl) rfl
    [fileName] ⟨[0x78], 0o644⟩ rfl
  have hfinal : (deviceInTarget.deploy .byName (.ofString "s") (.ofString "t")).files.stat
      ((Path.ofString "t").joinAll [fileName]) = .ok .device := rfl
  cases hfinal.symm.trans hstat

/-- A deployment that succeeds need not bring a file with its content and its permission bits to the target: the target may
come to be the source when its missing part is made; a program does not run as its owner any more once it was written;
and a device takes what is written to it and stays a device. -/
theorem not_broughtAtFirst :
    (¬ BroughtAtFirst fun data entry => ∀ data', entry = .file data' → data'.content = data.content) ∧
    (¬ BroughtAtFirst fun data entry => ∀ data', entry = .file data' → data'.mode = data.mode) ∧
    ¬ BroughtAtFirst fun _ entry => ∃ data', entry = .file data' :=
  ⟨not_broughtAtFirst_content, not_broughtAtFirst_mode, not_broughtAtFirst_file⟩

end Deployment

end ConsoleKit
