import ConsoleKit.Proofs.Deployment.Counting
import ConsoleKit.Proofs.Deployment.Inventory

/-!
# Two sources in one target

Two sources that have nothing in common but directories can be deployed into one target in either order
(`deploy_commute`). What is left at a place after both does not depend on which came first (`brought_comm`). Which of the two
makes a directory that both have does; but between them they make the directories that are new in the end.
-/

namespace ConsoleKit

open FileSystem

namespace Deployment

variable {files : FileSystem} {source source' target : Path} {trace trace' traceBack traceBack' : List (List FileName)}
  {progress progress' progressBack progressBack' : Progress}

/-- Two sources have directories at all names that they have in common. -/
def Compatible (files : FileSystem) (source source' : Path) : Prop :=
  ∀ names, files.Leads (source.joinAll names) → files.Leads (source'.joinAll names) →
    files.isDirectory (source.joinAll names) = true ∧ files.isDirectory (source'.joinAll names) = true

theorem Compatible.isDirectory_eq (h : Compatible files source source') (names : List FileName)
    (hleads : files.Leads (source.joinAll names)) (hleads' : files.Leads (source'.joinAll names)) :
    files.isDirectory (source.joinAll names) = files.isDirectory (source'.joinAll names) := by
  obtain ⟨hdirectory, hdirectory'⟩ := h names hleads hleads'
  rw [hdirectory, hdirectory']

theorem entryAt_of_isDirectory {path : Path} (h : files.isDirectory path = true) :
    ∃ mode, files.entryAt path = some (.directory mode) := by
  obtain ⟨mode, hmode⟩ := isDirectory_iff.1 h
  exact ⟨mode, entryAt_of_stat hmode⟩

/-- It does not matter what is brought to a place first if two directories are brought, or one thing only. -/
theorem brought_comm (h : Compatible files source source') (names : List FileName) (old around : Option Node) :
    brought (brought old (files.entryAt (source.joinAll names)) around) (files.entryAt (source'.joinAll names)) around =
      brought (brought old (files.entryAt (source'.joinAll names)) around) (files.entryAt (source.joinAll names)) around := by
  by_cases hleads : files.Leads (source.joinAll names)
  · by_cases hleads' : files.Leads (source'.joinAll names)
    · obtain ⟨hdirectory, hdirectory'⟩ := h names hleads hleads'
      obtain ⟨mode, hmode⟩ := entryAt_of_isDirectory hdirectory
      obtain ⟨mode', hmode'⟩ := entryAt_of_isDirectory hdirectory'
      rw [hmode, hmode', brought_directory old around mode' mode, brought_directory _ around mode' mode]
    · rw [entryAt_of_not_leads hleads']
      rfl
  · rw [entryAt_of_not_leads hleads]
    rfl

/-- What two deployments create, one after the other: the directories that are new in the end once the target is there, and
those that it was missing. -/
theorem Finishes.createdDirectories_after (h : Finishes files source target trace progress)
    (hprovided : Provided progress.files target) (h' : Finishes progress.files source' target trace' progress') :
    ((progress.report.createdDirectories + progress'.report.createdDirectories : ℕ) : ℕ∞) =
      (newDirectories (files.withDirectory target) progress'.files).encard +
        missingCount files target target.pieces.ancestors := by
  have hcount := h.handles.encard_newDirectories h.underway.plain
  have hcount' := h'.handles.encard_newDirectories h'.underway.plain
  rw [begun_of_provided hprovided, Nat.cast_zero, add_zero] at hcount'
  have hgrows : progress.files.Grows progress'.files := h'.underway.grows
  rw [encard_newDirectories_trans h.confined.grows hgrows, hcount', Nat.cast_add, ← hcount]
  exact add_right_comm _ _ _

/-- A source that was deployed second could have been deployed first: what was in nobody's way then was in nobody's way
before. -/
theorem Finishes.clear_before (h : Finishes files source target trace progress) (hprovided : Provided progress.files target)
    (hsep' : files.Separated source' target) (hresolved' : Resolved files source')
    (h' : Finishes progress.files source' target trace' progress') (front : List FileName) (name : FileName) (entry : Entry)
    (hstat : files.stat (source'.joinAll (front ++ [name])) = .ok entry) :
    Clear (files.withDirectory target) target front name entry := by
  obtain ⟨entry', hstat', hentry⟩ := (h.alike_after hsep' hresolved').stat hstat
  have hclear := h'.clear hstat'
  rw [withDirectory_of_provided hprovided] at hclear
  exact (hclear.of_confined h.confined).alike hentry.symm

section Both

variable (h : Finishes files source target trace progress) (hprovided : Provided progress.files target)
  (h' : Finishes progress.files source' target trace' progress')
  (hback : Finishes files source' target traceBack progressBack) (hprovidedBack : Provided progressBack.files target)
  (hback' : Finishes progressBack.files source target traceBack' progressBack')
  (hresolved : Resolved files source) (hresolved' : Resolved files source')

include h h' hback hback' hresolved hresolved'

/-- In either order as many files are copied. -/
theorem copiedFiles_add_eq : progress.report.copiedFiles + progress'.report.copiedFiles =
    progressBack.report.copiedFiles + progressBack'.report.copiedFiles := by
  have hfirst := hback'.copiedFiles_eq_of_alike h (hback.alike_after h.underway.separated hresolved).symm
  have hsecond := h'.copiedFiles_eq_of_alike hback (h.alike_after hback.underway.separated hresolved').symm
  rw [hfirst, hsecond, Nat.add_comm]

variable (hcompatible : Compatible files source source')

include hprovided hprovidedBack hcompatible

/-- In either order the same is left. The induction is on the place, as for sources that look alike. -/
theorem files_eq_of_compatible : progress'.files = progressBack'.files := by
  have hplaces : ∀ place, progress'.files.bare? place = progressBack'.files.bare? place := by
    refine forall_places (files.withDirectory target) target (fun names place hbelow htail => ?_) fun place hnot => ?_
    · rw [h.bare?_after hprovided h' hback.underway.separated hresolved' hbelow,
        hback.bare?_after hprovidedBack hback' h.underway.separated hresolved hbelow, htail, brought_comm hcompatible]
    · rw [h.bare?_elsewhere hprovided h' hnot, hback.bare?_elsewhere hprovidedBack hback' hnot]
  obtain ⟨hshared, hworking⟩ := h.kept_after hprovided h'
  obtain ⟨hsharedBack, hworkingBack⟩ := hback.kept_after hprovidedBack hback'
  exact eq_of_bare? hplaces (hshared.trans hsharedBack.symm) (hworking.trans hworkingBack.symm)

/-- In either order as many directories are created. -/
theorem createdDirectories_add_eq : progress.report.createdDirectories + progress'.report.createdDirectories =
    progressBack.report.createdDirectories + progressBack'.report.createdDirectories := by
  have hcount := h.createdDirectories_after hprovided h'
  have hcountBack := hback.createdDirectories_after hprovidedBack hback'
  rw [← files_eq_of_compatible h hprovided h' hback hprovidedBack hback' hresolved hresolved' hcompatible, ← hcount]
    at hcountBack
  exact_mod_cast hcountBack.symm

end Both

variable {order order' orderBack orderBack' : ListingOrder} {first second : Report}

/-- **The order of two sources.** If two sources that have nothing but directories in common are deployed one after the other
and both deployments succeed, they also do the other way round. The same is left, and between them the two deployments copy as
many files and create as many directories. -/
theorem deploy_commute (orderBack orderBack' : ListingOrder) (hsep : files.Separated source target)
    (hsep' : files.Separated source' target) (hplain : (files.withDirectory target).PlainBelow target)
    (hresolved : Resolved files source) (hresolved' : Resolved files source') (hcompatible : Compatible files source source')
    (hfirst : (files.deploy order source target).result = .ok first)
    (hsecond : ((files.deploy order source target).files.deploy order' source' target).result = .ok second) :
    ∃ firstBack secondBack,
      (files.deploy orderBack source' target).result = .ok firstBack ∧
      (files.deploy orderBack source' target).files.deploy orderBack' source target =
        ⟨.ok secondBack, ((files.deploy order source target).files.deploy order' source' target).files⟩ ∧
      firstBack.copiedFiles + secondBack.copiedFiles = first.copiedFiles + second.copiedFiles ∧
      firstBack.createdDirectories + secondBack.createdDirectories = first.createdDirectories + second.createdDirectories := by
  -- One way round, as it is given.
  obtain ⟨trace, progress, h, hprovide, hdeploy⟩ := finishes_of_ok hsep hplain hresolved hfirst
  have hprovided := h.provided hprovide
  have hfiles : (files.deploy order source target).files = progress.files := congrArg Outcome.files hdeploy
  rw [hfiles] at hsecond ⊢
  obtain ⟨trace', progress', h', -, hdeploy'⟩ := finishes_of_ok (h.separated_after hprovided hsep' hresolved')
    (h.plain_after hprovided) (h.resolved_after hsep' hresolved') hsecond
  rw [hdeploy, Except.ok.injEq] at hfirst
  rw [hdeploy', Except.ok.injEq] at hsecond
  rw [hdeploy']
  -- The second source can be deployed first.
  have hsource' := (h.alike_after hsep' hresolved').symm.isDirectory_source h'.directory
  obtain ⟨traceBack, progressBack, hback, hdeployBack⟩ := finishes_of_clear hsep' hplain hresolved' orderBack hsource' hprovide
    (h.clear_before hprovided hsep' hresolved' h')
  have hprovidedBack := hback.provided hprovide
  -- The first source can be deployed next.
  obtain ⟨traceBack', progressBack', hback', hdeployBack'⟩ := hback.next hprovidedBack orderBack' hsep hresolved h.directory
    hcompatible.isDirectory_eq fun _ _ _ hstat => h.clear hstat
  have hsame := files_eq_of_compatible h hprovided h' hback hprovidedBack hback' hresolved hresolved' hcompatible
  have hcopied := copiedFiles_add_eq h h' hback hback' hresolved hresolved'
  have hcreated := createdDirectories_add_eq h hprovided h' hback hprovidedBack hback' hresolved hresolved' hcompatible
  rw [hdeployBack]
  refine ⟨progressBack.report, progressBack'.report, rfl, ?_, ?_, ?_⟩
  · show progressBack.files.deploy orderBack' source target = _
    rw [hdeployBack', hsame]
  · rw [← hcopied, hfirst, hsecond]
  · rw [← hcreated, hfirst, hsecond]

/-! ## Two sources with a directory in common -/

/-- Two sources are compatible if everything on the list of one that the other one has as well is a directory in both. -/
theorem compatible_of_isInventory {directories : List (List FileName)} (h : isInventory files source directories = true)
    (hcommon : ((inventory files source directories).all fun names => !files.contains (source'.joinAll names) ||
      (files.isDirectory (source.joinAll names) && files.isDirectory (source'.joinAll names))) = true) :
    Compatible files source source' := by
  intro names hleads hleads'
  have hnames := List.all_eq_true.1 hcommon names ((mem_inventory_iff h).2 hleads)
  have hcontains := contains_eq_true_iff.2 hleads'
  rwa [hcontains, Bool.not_true, Bool.false_or, Bool.and_eq_true] at hnames

/-- A file system with files at `s/f` and `s/x/f` and at `p/x/l`, and an empty directory `t`. -/
def twoSources : FileSystem :=
  built do
    let files ← oneFile.writeFile (.ofString "s/x/f") [0x79]
    let files ← files.writeFile (.ofString "p/x/l") [0x7A]
    files.ensurePath (.ofString "t")

theorem isInventory_first : isInventory twoSources (.ofString "s") [[], [firstName]] = true := by
  cbv

theorem isInventory_second : isInventory twoSources (.ofString "p") [[], [firstName]] = true := by
  cbv

theorem find_target_twoSources : twoSources.find (.ofString "t") = .ok ⟨[targetName], .directory 0o755 [], false⟩ := by
  cbv

theorem compatible_twoSources : Compatible twoSources (.ofString "s") (.ofString "p") :=
  compatible_of_isInventory isInventory_first (by cbv)

theorem separated_first : twoSources.Separated (.ofString "s") (.ofString "t") :=
  separated_of_isInventory isInventory_first find_target_twoSources rfl rfl (by cbv)

theorem separated_second : twoSources.Separated (.ofString "p") (.ofString "t") :=
  separated_of_isInventory isInventory_second find_target_twoSources rfl rfl (by cbv)

theorem plainBelow_twoSources : (twoSources.withDirectory (.ofString "t")).PlainBelow (.ofString "t") :=
  plainBelow_made find_target_twoSources rfl

theorem deploy_commute_twoSources : twoSources.Separated (.ofString "s") (.ofString "t") ∧
    twoSources.Separated (.ofString "p") (.ofString "t") ∧
    (twoSources.withDirectory (.ofString "t")).PlainBelow (.ofString "t") ∧
    Resolved twoSources (.ofString "s") ∧ Resolved twoSources (.ofString "p") ∧
    Compatible twoSources (.ofString "s") (.ofString "p") ∧
    (twoSources.deploy .byName (.ofString "s") (.ofString "t")).result = .ok ⟨2, 1⟩ ∧
    ((twoSources.deploy .byName (.ofString "s") (.ofString "t")).files.deploy .byName (.ofString "p")
      (.ofString "t")).result = .ok ⟨1, 0⟩ ∧
    ∃ first second, (twoSources.deploy .byName (.ofString "p") (.ofString "t")).result = .ok first ∧
      (twoSources.deploy .byName (.ofString "p") (.ofString "t")).files.deploy .byName (.ofString "s") (.ofString "t") =
        ⟨.ok second, ((twoSources.deploy .byName (.ofString "s") (.ofString "t")).files.deploy .byName (.ofString "p")
          (.ofString "t")).files⟩ ∧
      first.copiedFiles + second.copiedFiles = 3 ∧ first.createdDirectories + second.createdDirectories = 1 := by
  have hresolved := resolved_of_isInventory isInventory_first
  have hresolved' := resolved_of_isInventory isInventory_second
  have hfirst : (twoSources.deploy .byName (.ofString "s") (.ofString "t")).result = .ok ⟨2, 1⟩ := by cbv
  have hsecond : ((twoSources.deploy .byName (.ofString "s") (.ofString "t")).files.deploy .byName (.ofString "p")
      (.ofString "t")).result = .ok ⟨1, 0⟩ := by cbv
  exact ⟨separated_first, separated_second, plainBelow_twoSources, hresolved, hresolved', compatible_twoSources, hfirst,
    hsecond, deploy_commute .byName .byName separated_first separated_second plainBelow_twoSources hresolved hresolved'
      compatible_twoSources hfirst hsecond⟩

/-! ## Why the sources have to be resolved -/

/-- That two compatible sources can be deployed in either order, if some separation of each of them from the target sufficed
for it. -/
def Commuting (apart : FileSystem → Path → Path → Prop) : Prop :=
  ∀ (files : FileSystem) (order order' orderBack orderBack' : ListingOrder) (source source' target : Path)
    (first second : Report), apart files source target → apart files source' target → Compatible files source source' →
    (files.deploy order source target).result = .ok first →
    ((files.deploy order source target).files.deploy order' source' target).result = .ok second →
    ∃ firstBack secondBack, (files.deploy orderBack source' target).result = .ok firstBack ∧
      ((files.deploy orderBack source' target).files.deploy orderBack' source target).result = .ok secondBack ∧
      (∀ place, ((files.deploy orderBack source' target).files.deploy orderBack' source target).files.get? place =
        ((files.deploy order source target).files.deploy order' source' target).files.get? place) ∧
      firstBack.copiedFiles + secondBack.copiedFiles = first.copiedFiles + second.copiedFiles ∧
      firstBack.createdDirectories + secondBack.createdDirectories = first.createdDirectories + second.createdDirectories

/-- A file system with a file at `s/f`, a link at `p/l` to the copy that is to be made of it, and an empty directory `t`. -/
def lateLink : FileSystem :=
  built (twoDirectories.makeLink (.ofString "p/l") (.ofString "../t/f"))

/-- The directory of the link in `lateLink`. -/
def lateSource : Node :=
  .directory 0o755 [(linkName, .link (.ofString "../t/f"))]

theorem find_target_lateLink : lateLink.find (.ofString "t") = .ok ⟨[targetName], .directory 0o755 [], false⟩ := by
  cbv

theorem plainBelow_lateLink : (lateLink.withDirectory (.ofString "t")).PlainBelow (.ofString "t") :=
  plainBelow_made find_target_lateLink rfl

theorem isInventory_lateLink : isInventory lateLink (.ofString "s") [[]] = true := by
  cbv

theorem separated_lateSource : lateLink.Separated (.ofString "p") (.ofString "t") := by
  have hsource : lateLink.find (Path.ofString "p").directory = .ok ⟨[⟨[0x70], by decide⟩], lateSource, false⟩ := by cbv
  have hnowhere : lateLink.LinksNowhere [⟨[0x70], by decide⟩] := by
    have hnode : lateLink.node? [⟨[0x70], by decide⟩] = some lateSource := by cbv
    exact linksNowhere_of_isDeadEnd hnode (by cbv)
  have hapart := separatedAtFirst_of_linksNowhere hsource find_target_lateLink rfl rfl hnowhere rfl (by decide) (by decide)
  exact hapart.separated find_target_lateLink

/-- A file system with files at `s/f` and `p/l`. -/
def twoFiles : FileSystem :=
  built (oneFile.writeFile (.ofString "p/l") [0x79])

theorem isInventory_first_twoFiles : isInventory twoFiles (.ofString "s") [[]] = true := by
  cbv

theorem isInventory_second_twoFiles : isInventory twoFiles (.ofString "p") [[]] = true := by
  cbv

/-- The order matters if a link of one source leads to what is to be copied from the other; and if the target turns out to be
one of the sources once its missing part is made. -/
theorem not_commuting :
    (¬ Commuting fun files source target => files.Separated source target ∧
      (files.withDirectory target).PlainBelow target) ∧
    ¬ Commuting fun files source target => files.SeparatedAtFirst source target ∧ files.PlainBelow target := by
  constructor
  · intro h
    have hsep : lateLink.Separated (.ofString "s") (.ofString "t") :=
      separated_of_isInventory isInventory_lateLink find_target_lateLink rfl rfl (by cbv)
    have hcompatible : Compatible lateLink (.ofString "s") (.ofString "p") :=
      compatible_of_isInventory isInventory_lateLink (by cbv)
    have hfirst : (lateLink.deploy .byName (.ofString "s") (.ofString "t")).result = .ok ⟨1, 0⟩ := by cbv
    have hsecond : ((lateLink.deploy .byName (.ofString "s") (.ofString "t")).files.deploy .byName (.ofString "p")
        (.ofString "t")).result = .ok ⟨1, 0⟩ := by cbv
    have hfailure : (lateLink.deploy .byName (.ofString "p") (.ofString "t")).result =
        .error (.call .stat (.ofString "p/l") .notFound) := by cbv
    obtain ⟨firstBack, -, hfirstBack, -⟩ := h lateLink .byName .byName .byName .byName (.ofString "s") (.ofString "p")
      (.ofString "t") _ _ ⟨hsep, plainBelow_lateLink⟩ ⟨separated_lateSource, plainBelow_lateLink⟩ hcompatible hfirst hsecond
    rw [hfailure] at hfirstBack
    cases hfirstBack
  · intro h
    have hmissing : twoFiles.find detour.directory = .error .notFound := by cbv
    have hplain : twoFiles.PlainBelow detour := plainBelow_of_missing hmissing
    have hsep := separatedAtFirst_of_isInventory isInventory_first_twoFiles hmissing (by cbv)
    have hsep' := separatedAtFirst_of_isInventory isInventory_second_twoFiles hmissing (by cbv)
    have hcompatible : Compatible twoFiles (.ofString "s") (.ofString "p") :=
      compatible_of_isInventory isInventory_first_twoFiles (by cbv)
    have hfirst : (twoFiles.deploy .byName (.ofString "s") detour).result = .ok ⟨1, 3⟩ := by cbv
    have hsecond : ((twoFiles.deploy .byName (.ofString "s") detour).files.deploy .byName (.ofString "p") detour).result =
        .ok ⟨1, 0⟩ := by cbv
    have hsecondBack : ((twoFiles.deploy .byName (.ofString "p") detour).files.deploy .byName (.ofString "s")
        detour).result = .ok ⟨2, 0⟩ := by cbv
    have hfirstBack : (twoFiles.deploy .byName (.ofString "p") detour).result = .ok ⟨1, 3⟩ := by cbv
    obtain ⟨firstBack, secondBack, hfirstBack', hsecondBack', -, hcopied, -⟩ := h twoFiles .byName .byName .byName .byName
      (.ofString "s") (.ofString "p") detour _ _ ⟨hsep, hplain⟩ ⟨hsep', hplain⟩ hcompatible hfirst hsecond
    rw [hfirstBack, Except.ok.injEq] at hfirstBack'
    rw [hsecondBack, Except.ok.injEq] at hsecondBack'
    subst hfirstBack' hsecondBack'
    exact absurd hcopied (by decide)

end Deployment

end ConsoleKit
