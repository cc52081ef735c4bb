import ConsoleKit.Proofs.Deployment.ListingOrder
import ConsoleKit.Proofs.Deployment.Provision
import Mathlib

/-!
# What a deployment counts

The directories that a deployment reports are those that are new in the file system (`deploy_newDirectories`): what is missing
of the target is counted before it is made, but that guess is right, and from then on every step counts what it makes. The
files are those of the source, if nothing new comes to be in the source on the way (`deploy_report_exact`). Links that lead
nowhere at first may lead to copies in the end; then the number is between those from before and from afterwards.
-/

namespace ConsoleKit

open FileSystem

namespace Deployment

variable {files final : FileSystem} {order : ListingOrder} {source target : Path} {names : List FileName} {place : Location}
  {trace : List (List FileName)} {progress : Progress} {report : Report}

/-! ## Directories -/

/-- A step that makes a directory counts one, and no other step counts any. -/
theorem Effect.encard_newDirectories {before after : Progress} (h : Effect source names place before after) :
    (newDirectories before.files after.files).encard + before.report.createdDirectories =
      after.report.createdDirectories := by
  cases h with
  | present _ _ hsame =>
    rw [hsame, newDirectories_self, Set.encard_empty, zero_add]
  | directory _ hnone _ hput hreport =>
    rw [hput.newDirectories_directory hnone, Set.encard_singleton, hreport, Nat.cast_add, Nat.cast_one, add_comm]
  | device _ _ hsame hreport =>
    rw [hsame, hreport, newDirectories_self, Set.encard_empty, zero_add]
  | file _ _ hput hreport =>
    have hnone := hput.newDirectories_of_ne fun mode hmode => by cases hmode
    rw [hnone, hreport, Set.encard_empty, zero_add]

/-- As many directories are new as were counted. The induction is on the entries: the directories that are new first and those
that are new later are different. -/
theorem Handles.encard_newDirectories {a b : Progress} (h : Handles ⟨source, target⟩ trace a b)
    (hplain : a.files.PlainBelow target) :
    (newDirectories a.files b.files).encard + a.report.createdDirectories = b.report.createdDirectories := by
  induction h with
  | nil progress => rw [newDirectories_self, Set.encard_empty, zero_add]
  | @cons front name inner trace a b c hprovided hentry hrest ih =>
    obtain ⟨place, -, heffect⟩ := handleEntry_effect hplain hprovided hentry
    have hrun := handleEntry_runs hprovided hentry
    have hplain' := (confined_of_runs hplain hrun).plainBelow hplain
    calc (newDirectories a.files c.files).encard + a.report.createdDirectories
        = (newDirectories b.files c.files).encard +
            ((newDirectories a.files b.files).encard + a.report.createdDirectories) := by
          rw [encard_newDirectories_trans hrun.grows hrest.runs.grows, add_assoc, add_left_comm]
      _ = (newDirectories b.files c.files).encard + b.report.createdDirectories := by rw [heffect.encard_newDirectories]
      _ = c.report.createdDirectories := ih hplain'

/-- A target without `..` that was provided is new if nothing was there, and its directories were counted right. -/
theorem begun_forward (hforward : .parent ∉ target.steps)
    (hprovide : provideDirectory target ⟨files, ⟨0, 0⟩⟩ = .ok () (begun files target)) :
    (¬ Provided files target → Fresh files (files.withDirectory target) target) ∧
      (newDirectories files (files.withDirectory target)).encard = (begun files target).report.createdDirectories := by
  obtain ⟨hfresh, hcount⟩ := provideDirectory_forward hforward hprovide
  rw [Nat.cast_zero, add_zero] at hcount
  exact ⟨hfresh, hcount⟩

/-! ## Files -/

/-- The paths of a source at which there is something that is not a directory, links followed. -/
def filesAt (files : FileSystem) (source : Path) : Set (List FileName) :=
  {names | files.Leads (source.joinAll names) ∧ files.isDirectory (source.joinAll names) = false}

theorem mem_filesAt_of_stat {data : FileData} (h : files.stat (source.joinAll names) = .ok (.file data)) :
    names ∈ filesAt files source :=
  ⟨leads_of_stat h, Bool.eq_false_iff.2 (not_isDirectory_of_file h)⟩

theorem encard_of_nodup {α : Type} [DecidableEq α] {list : List α} (h : list.Nodup) (p : α → Bool) :
    {a | a ∈ list ∧ p a = true}.encard = list.countP p := by
  have hset : {a | a ∈ list ∧ p a = true} = ((list.filter p).toFinset : Set α) := by
    ext a
    simp
  rw [hset, Set.encard_coe_eq_coe_finsetCard, List.toFinset_card_of_nodup (h.filter p), List.countP_eq_length_filter]

/-- What is counted as a file is a path of the source at which there is one in the end. -/
theorem filesAt_handled (hhandles : Handles ⟨source, target⟩ trace (begun files target) progress) :
    {names | names ∈ trace ∧ (!progress.files.isDirectory (source.joinAll names)) = true} ⊆
      filesAt progress.files source := by
  rintro names ⟨hmem, hfile⟩
  exact ⟨hhandles.leads hmem, by simpa using hfile⟩

/-- A file that was there at first is counted. -/
theorem filesAt_complete (hsource : files.isDirectory source = true)
    (hhandles : Handles ⟨source, target⟩ trace (begun files target) progress)
    (hcomplete : Complete ⟨source, target⟩ [[]] trace (files.withDirectory target) progress.files) :
    filesAt files source ⊆ {names | names ∈ trace ∧ (!progress.files.isDirectory (source.joinAll names)) = true} := by
  rintro names ⟨hleads, hfile⟩
  have hne : names ≠ [] := by
    rintro rfl
    rw [Path.joinAll_nil, hsource] at hfile
    cases hfile
  have hgrows : files.Grows progress.files := (withDirectory_madeAt files target).grows.trans hhandles.runs.grows
  refine ⟨mem_of_leads hhandles hcomplete hne hleads, ?_⟩
  rw [isDirectory_eq hgrows hleads, hfile]
  rfl

/-- A settled source has the same files in the end. -/
theorem Settled.filesAt_eq (h : Settled source files final) (hgrows : files.Grows final) :
    filesAt final source = filesAt files source := by
  ext names
  constructor
  · rintro ⟨hleads, hfile⟩
    have hleads' := h names hleads
    exact ⟨hleads', isDirectory_eq hgrows hleads' ▸ hfile⟩
  · rintro ⟨hleads, hfile⟩
    exact ⟨hleads.grows hgrows, (isDirectory_eq hgrows hleads).trans hfile⟩

/-! ## The whole deployment -/

section Deploy

variable (hforward : .parent ∉ target.steps) (h : (files.deploy order source target).result = .ok report)

include hforward h

theorem deploy_fresh : ¬ Provided files target → Fresh files (files.withDirectory target) target := by
  obtain ⟨-, -, -, hprovide, -⟩ := (deploy_goes files order source target).done_of_ok h
  exact (begun_forward hforward hprovide).1

variable (hplain : files.PlainBelow target)

include hplain

/-- The directories that are reported are those that are new. -/
theorem deploy_newDirectories :
    (newDirectories files (files.deploy order source target).files).encard = report.createdDirectories := by
  have hplain' := plainBelow_of_atFirst hplain (deploy_fresh hforward h)
  obtain ⟨trace, progress, -, hprovide, hhandles, -, rfl, hfiles⟩ := (deploy_goes files order source target).done_of_ok h
  have hgrows : files.Grows (files.withDirectory target) := (withDirectory_madeAt files target).grows
  rw [hfiles, encard_newDirectories_trans hgrows hhandles.runs.grows, (begun_forward hforward hprovide).2, add_comm]
  exact hhandles.encard_newDirectories hplain'

/-- The files that are reported are at least those that the source had at first, and at most those that it has in the end. -/
theorem deploy_copiedFiles : (filesAt files source).encard ≤ report.copiedFiles ∧
    report.copiedFiles ≤ (filesAt (files.deploy order source target).files source).encard := by
  have hplain' := plainBelow_of_atFirst hplain (deploy_fresh hforward h)
  obtain ⟨trace, progress, hsource, -, hhandles, hcomplete, rfl, hfiles⟩ :=
    (deploy_goes files order source target).done_of_ok h
  have hcount : {names | names ∈ trace ∧ (!progress.files.isDirectory (source.joinAll names)) = true}.encard =
      progress.report.copiedFiles := by
    rw [encard_of_nodup hcomplete.nodup, hhandles.report hplain' hcomplete.nodup, begun, Nat.zero_add]
  have hleast := filesAt_complete hsource hhandles hcomplete
  rw [hfiles, ← hcount]
  exact ⟨Set.encard_le_encard hleast, Set.encard_le_encard (filesAt_handled hhandles)⟩

theorem copiedFiles_of_settled (hsettled : Settled source files (files.deploy order source target).files) :
    (filesAt files source).encard = report.copiedFiles := by
  obtain ⟨hleast, hmost⟩ := deploy_copiedFiles hforward h hplain
  rw [hsettled.filesAt_eq (deploy_grows files order source target)] at hmost
  exact le_antisymm hleast hmost

/-- For a source without links the report gives the files of the source and the new directories, just as they are. -/
theorem deploy_report_linkFree (hsep : files.SeparatedAtFirst source target) (hfree : files.LinkFreeBelow source) :
    (filesAt files source).encard = report.copiedFiles ∧
      (newDirectories files (files.deploy order source target).files).encard = report.createdDirectories := by
  have hfresh := deploy_fresh hforward h
  have hsettled := deploy_settled order (separated_of_atFirst hsep hfresh) (plainBelow_of_atFirst hplain hfresh) hfree
  exact ⟨copiedFiles_of_settled hforward h hplain hsettled, deploy_newDirectories hforward h hplain⟩

/-- **What a report says.** If there is no `..` in the target, and the target is plain below, the directories that a deployment
reports are those that are new in the whole file system. The files are not less than the files of the source at first, and not
more than those of the source in the end; if nothing in the source has come to lead somewhere on the way, they are those of the
source at first. -/
theorem deploy_report_exact :
    (newDirectories files (files.deploy order source target).files).encard = report.createdDirectories ∧
    (filesAt files source).encard ≤ report.copiedFiles ∧
    report.copiedFiles ≤ (filesAt (files.deploy order source target).files source).encard ∧
    (Settled source files (files.deploy order source target).files →
      (filesAt files source).encard = report.copiedFiles) := by
  obtain ⟨hleast, hmost⟩ := deploy_copiedFiles hforward h hplain
  exact ⟨deploy_newDirectories hforward h hplain, hleast, hmost, copiedFiles_of_settled hforward h hplain⟩

end Deploy

/-- The path of a directory that is missing in `oneFile` together with its parent. -/
def missingPair : Path :=
  .ofString "a/b"

theorem not_find_missingPair : ∀ base, oneFile.find missingPair.directory ≠ .ok base := by
  intro base hbase
  cases hbase

theorem deploy_report_missingPair : .parent ∉ missingPair.steps ∧ oneFile.PlainBelow missingPair ∧
    (oneFile.deploy .byName (.ofString "s") missingPair).result = .ok ⟨1, 2⟩ ∧
    (newDirectories oneFile (oneFile.deploy .byName (.ofString "s") missingPair).files).encard = 2 ∧
    (filesAt oneFile (.ofString "s")).encard = 1 := by
  have hforward : .parent ∉ missingPair.steps := by decide
  have hplain : oneFile.PlainBelow missingPair := fun base hbase => absurd hbase (not_find_missingPair base)
  have hresult : (oneFile.deploy .byName (.ofString "s") missingPair).result = .ok ⟨1, 2⟩ := rfl
  have hsource : oneFile.find (Path.ofString "s").directory =
      .ok ⟨[directoryName], .directory 0o755 [(fileName, .file ⟨[0x78], 0o644⟩)], false⟩ := rfl
  have hsep := separatedAtFirst_of_unmade hsource rfl rfl (not_suffix_of_clearOf rfl) not_find_missingPair
  have hfresh := deploy_fresh hforward hresult
  have hsettled := deploy_settled .byName (separated_of_atFirst hsep hfresh) (plainBelow_of_atFirst hplain hfresh)
    (plainBelow_of_isPlain hsource rfl).linkFreeBelow
  obtain ⟨hdirectories, -, -, hfiles⟩ := deploy_report_exact hforward hresult hplain
  exact ⟨hforward, hplain, hresult, hdirectories, hfiles hsettled⟩

/-! ## Links from one part of the source to the copy of another -/

/-- That a report gives the number of some paths of the source, which may be taken before the deployment or afterwards. -/
def ReportsFiles (counted : FileSystem → FileSystem → Path → Set (List FileName)) : Prop :=
  ∀ (files : FileSystem) (order : ListingOrder) (source target : Path) (report : Report),
    files.SeparatedAtFirst source target → files.PlainBelow target → .parent ∉ target.steps →
    (files.deploy order source target).result = .ok report →
    (counted files (files.deploy order source target).files source).encard = report.copiedFiles

/-- A file system with links at `s/x/l` to the copy that is to be made of `s/y`, and at `s/y/l` to that of `s/x`. -/
def crossLinks : FileSystem :=
  built do
    let files ← FileSystem.empty.writeFile (.ofString "s/x/f") [0x78]
    let files ← files.makeLink (.ofString "s/x/l") (.ofString "../../t/y")
    let files ← files.writeFile (.ofString "s/y/f") [0x79]
    let files ← files.makeLink (.ofString "s/y/l") (.ofString "../../t/x")
    files.ensurePath (.ofString "t")

/-- The source in `crossLinks`. -/
def crossSource : Node :=
  .directory 0o755
    [(firstName, .directory 0o755 [(fileName, .file ⟨[0x78], 0o644⟩), (linkName, .link (.ofString "../../t/y"))]),
      (secondName, .directory 0o755 [(fileName, .file ⟨[0x79], 0o644⟩), (linkName, .link (.ofString "../../t/x"))])]

theorem find_source_crossLinks : crossLinks.find (Path.ofString "s").directory =
    .ok ⟨[directoryName], crossSource, false⟩ := by
  cbv

theorem find_target_crossLinks : crossLinks.find (.ofString "t") = .ok ⟨[targetName], .directory 0o755 [], false⟩ := by
  cbv

theorem linksNowhere_crossLinks : crossLinks.LinksNowhere [directoryName] := by
  have hnode : crossLinks.node? [directoryName] = some crossSource := by cbv
  have hdead : (crossSource.nodes [directoryName]).all (fun entry => crossLinks.isDeadEnd entry.1 entry.2) = true := by
    cbv
  exact linksNowhere_of_isDeadEnd hnode hdead

theorem separatedAtFirst_crossLinks : crossLinks.SeparatedAtFirst (.ofString "s") (.ofString "t") :=
  separatedAtFirst_of_linksNowhere find_source_crossLinks find_target_crossLinks rfl rfl linksNowhere_crossLinks rfl
    directoryName_not_suffix targetName_not_suffix

theorem result_crossLinks : (crossLinks.deploy .byName (.ofString "s") (.ofString "t")).result = .ok ⟨3, 5⟩ := by
  cbv

/-- At first there are two files in the source. -/
theorem filesAt_crossLinks : filesAt crossLinks (.ofString "s") ⊆ {[firstName, fileName], [secondName, fileName]} := by
  rintro names ⟨⟨spot, hfind⟩, hfile⟩
  have hroot : crossLinks.node? [directoryName] = some crossSource := by cbv
  have hsource : crossLinks.isDirectory (.ofString "s") = true := by cbv
  have hne : names ≠ [] := by
    rintro rfl
    rw [Path.joinAll_nil, hsource] at hfile
    cases hfile
  obtain ⟨hplace, hnode⟩ := node?_of_linksNowhere find_source_crossLinks rfl linksNowhere_crossLinks hne hfind
  rw [hplace, node?_append, hroot, Option.bind_some] at hnode
  have hnames : names ∈ (crossSource.nodes [directoryName]).map fun entry => entry.1.dropLast.reverse :=
    List.mem_map.2 ⟨_, Node.mem_nodes_of_at? [directoryName] hnode, by simp⟩
  have hpaths : (crossSource.nodes [directoryName]).map (fun entry => entry.1.dropLast.reverse) =
      [[], [firstName], [firstName, fileName], [firstName, linkName], [secondName], [secondName, fileName],
        [secondName, linkName]] := by
    cbv
  have hdirectory : crossLinks.isDirectory ((Path.ofString "s").joinAll [firstName]) = true ∧
      crossLinks.isDirectory ((Path.ofString "s").joinAll [secondName]) = true := by
    constructor <;> cbv
  have hlink : crossLinks.find ((Path.ofString "s").joinAll [firstName, linkName]) = .error .notFound ∧
      crossLinks.find ((Path.ofString "s").joinAll [secondName, linkName]) = .error .notFound := by
    constructor <;> cbv
  simp only [hpaths, List.mem_cons, List.not_mem_nil, or_false] at hnames
  rcases hnames with rfl | rfl | rfl | rfl | rfl | rfl | rfl
  · exact absurd rfl hne
  · simp [hdirectory.1] at hfile
  · exact .inl rfl
  · simp [hlink.1] at hfind
  · simp [hdirectory.2] at hfile
  · exact .inr rfl
  · simp [hlink.2] at hfind

/-- Four of the files that the source of `crossLinks` has in the end: each of the two is also behind a link. -/
def crossFiles : Finset (List FileName) :=
  {[firstName, fileName], [secondName, fileName], [firstName, linkName, fileName], [secondName, linkName, fileName]}

theorem filesAt_final_crossLinks : (crossFiles : Set (List FileName)) ⊆
    filesAt (crossLinks.deploy .byName (.ofString "s") (.ofString "t")).files (.ofString "s") := by
  intro names hnames
  simp only [crossFiles, Finset.coe_insert, Finset.coe_singleton, Set.mem_insert_iff, Set.mem_singleton_iff] at hnames
  have hx : (crossLinks.deploy .byName (.ofString "s") (.ofString "t")).files.stat
      ((Path.ofString "s").joinAll [firstName, fileName]) = .ok (.file ⟨[0x78], 0o644⟩) := by cbv
  have hy : (crossLinks.deploy .byName (.ofString "s") (.ofString "t")).files.stat
      ((Path.ofString "s").joinAll [secondName, fileName]) = .ok (.file ⟨[0x79], 0o644⟩) := by cbv
  have hxl : (crossLinks.deploy .byName (.ofString "s") (.ofString "t")).files.stat
      ((Path.ofString "s").joinAll [firstName, linkName, fileName]) = .ok (.file ⟨[0x79], 0o644⟩) := by cbv
  have hyl : (crossLinks.deploy .byName (.ofString "s") (.ofString "t")).files.stat
      ((Path.ofString "s").joinAll [secondName, linkName, fileName]) = .ok (.file ⟨[0x78], 0o644⟩) := by cbv
  rcases hnames with rfl | rfl | rfl | rfl
  · exact mem_filesAt_of_stat hx
  · exact mem_filesAt_of_stat hy
  · exact mem_filesAt_of_stat hxl
  · exact mem_filesAt_of_stat hyl

/-- A report gives neither the number of the files that the source had at first nor of those that it has in the end. -/
theorem not_reportsFiles : (¬ ReportsFiles fun files _ source => filesAt files source) ∧
    ¬ ReportsFiles fun _ final source => filesAt final source := by
  have hplain : crossLinks.PlainBelow (.ofString "t") := plainBelow_of_isPlain find_target_crossLinks rfl
  have hforward : .parent ∉ (Path.ofString "t").steps := by decide
  constructor
  · intro h
    have hcount := h crossLinks .byName (.ofString "s") (.ofString "t") _ separatedAtFirst_crossLinks hplain hforward
      result_crossLinks
    have hmost := Set.encard_le_encard filesAt_crossLinks
    rw [hcount, Set.encard_pair (by decide)] at hmost
    exact absurd hmost (by decide)
  · intro h
    have hcount := h crossLinks .byName (.ofString "s") (.ofString "t") _ separatedAtFirst_crossLinks hplain hforward
      result_crossLinks
    have hleast := Set.encard_le_encard filesAt_final_crossLinks
    rw [hcount, Set.encard_coe_eq_coe_finsetCard] at hleast
    exact absurd hleast (by decide)

end Deployment

end ConsoleKit
