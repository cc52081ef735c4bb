import ConsoleKit.Proofs.Deployment.Additions
import ConsoleKit.Proofs.Deployment.Clearance
import Mathlib

/-!
# When a deployment of ordinary files fails

Among directories and regular files a deployment fails for one of three reasons (`deploy_succeeds_iff`): the source is no
directory, a file is on the way to the target, or an entry of the target is of the wrong kind: a file where a directory of
the source has entries, or a directory where the source has a file. No call on the way can fail for another reason, and no
call that comes before can have put the wrong kind there, since what a deployment adds is of the kind of the source.
-/

namespace ConsoleKit

open FileSystem

namespace Deployment

variable {files middle : FileSystem} {order : ListingOrder} {source target : Path} {location place : Location}
  {names front : List FileName} {name : FileName} {progress : Progress}

/-- A deployment among directories and regular files, into a target that is a path of names and neither inside the source nor
around it. The system accepts all paths that come up. -/
structure OrdinaryCall (files : FileSystem) (source target : Path) (location : Location) (names : List FileName) : Prop where
  ordinary : files.Ordinary
  denotes : files.Denotes target location names
  apart : ∀ place mode entries, files.find source = .ok ⟨place, .directory mode entries, false⟩ →
    ¬ place <:+ names.reverse ++ location ∧ ¬ names.reverse ++ location <:+ place
  accepted : ∀ place mode entries, files.find source = .ok ⟨place, .directory mode entries, false⟩ → ∀ names' node,
    files.node? (names'.reverse ++ place) = some node →
      checkPath (source.joinAll names') = .ok () ∧ checkPath (target.joinAll names') = .ok ()

namespace OrdinaryCall

theorem made (h : OrdinaryCall files source target location names) : (files.withDirectory target).Ordinary :=
  (withDirectory_madeAt files target).ordinary h.ordinary

theorem adds (h : OrdinaryCall files source target location names)
    (hrun : Runs source target (files.withDirectory target) middle) :
    Adds source (names.reverse ++ location) (files.withDirectory target) middle :=
  adds_of_runs h.made (h.denotes.grows (withDirectory_madeAt files target).grows) hrun

/-- In the source every kind stays as it is. -/
theorem kind?_source (h : OrdinaryCall files source target location names)
    (hrun : Runs source target (files.withDirectory target) middle) {base : Location} {mode : Mode}
    {entries : List (FileName × Node)} (hfind : files.find source = .ok ⟨base, .directory mode entries, false⟩)
    (hplace : base <:+ place) : middle.kind? place = files.kind? place := by
  obtain ⟨hnot, hnot'⟩ := h.apart base mode entries hfind
  have hmiddle : middle.kind? place = (files.withDirectory target).kind? place := by
    rcases (h.adds hrun).kind? place with hsame | ⟨names', -, rfl, -⟩
    · exact hsame
    · rcases List.suffix_or_suffix_of_suffix hplace (List.suffix_append names'.reverse _) with hin | hin
      · exact absurd hin hnot
      · exact absurd hin hnot'
  rcases kind?_withDirectory h.denotes.spells h.denotes.accepted (h.ordinary.linkFree location) place with hsame | ⟨-, -, hin⟩
  · exact hmiddle.trans hsame
  · exact absurd (hplace.trans hin) hnot

/-- An entry that is listed on the way was there before, and the system accepts the path that it has in the target. -/
theorem entry_of_listed (h : OrdinaryCall files source target location names) (hsource : files.isDirectory source = true)
    (hrun : Runs source target (files.withDirectory target) middle) {listed : List FileName}
    (hlist : middle.list (source.joinAll front) = .ok listed) (hname : name ∈ listed) :
    (∃ entry, files.stat (source.joinAll (front ++ [name])) = .ok entry) ∧
      checkPath (target.joinAll (front ++ [name])) = .ok () := by
  have hadds := h.adds hrun
  have hgrows := (withDirectory_madeAt files target).grows.trans hadds.grows
  obtain ⟨spot, _, _, hspot, -, -⟩ := list_inv hlist
  obtain ⟨hlive, node, hnode⟩ := (mem_list_iff hlist hspot).1 hname
  have hfree := (hadds.ordinary h.made).linkFreeBelow source
  obtain ⟨base', hbase', hlive', hlocation⟩ := find_joinAll_place hfree hlive hspot
  obtain ⟨⟨base, _, removed⟩, mode, entries, hbase, rfl⟩ := isDirectory_iff_find.1 hsource
  obtain ⟨base'', hbase'', hbecomes⟩ := find_grows hgrows hbase
  rw [directory_of_find hbase'', hbase'', Except.ok.injEq] at hbase'
  subst hbase'
  obtain rfl : removed = false := hbecomes.removed_eq.symm.trans hlive'
  rw [hbecomes.location_eq] at hlocation
  have hplace : name :: spot.location = (front ++ [name]).reverse ++ base := by simp [hlocation]
  have hkind := h.kind?_source hrun hbase (hplace ▸ List.suffix_append _ _)
  rw [kind?, hnode, Option.map_some, hplace] at hkind
  obtain ⟨node', hnode', -⟩ := kind?_eq_some_iff.1 hkind.symm
  obtain ⟨hcheck, hcheck'⟩ := h.accepted base mode entries hbase _ node' hnode'
  have hfind := find_joinAll_of_node? (h.ordinary.linkFreeBelow source) ((directory_of_find hbase).symm ▸ hbase) rfl hcheck
    (by simp) hnode'
  exact ⟨⟨_, stat_eq_ok_iff.2 ⟨_, hfind, rfl⟩⟩, hcheck'⟩

/-- What is in the target has been there with its kind; or it is the target itself; or it is of the kind of the source. -/
theorem kind?_target (h : OrdinaryCall files source target location names)
    (hrun : Runs source target (files.withDirectory target) middle) {kind : Kind}
    (hkind : middle.kind? (front.reverse ++ (names.reverse ++ location)) = some kind) :
    files.kind? (front.reverse ++ (names.reverse ++ location)) = some kind ∨ kind = .directory ∧ front = [] ∨
      kind = if middle.isDirectory (source.joinAll front) then .directory else .file := by
  rcases (h.adds hrun).kind? (front.reverse ++ (names.reverse ++ location)) with hsame | ⟨names', -, hplace, hnew⟩
  · rcases kind?_withDirectory h.denotes.spells h.denotes.accepted (h.ordinary.linkFree location)
        (front.reverse ++ (names.reverse ++ location)) with hsame' | ⟨-, hdirectory, hin⟩
    · exact .inl (hsame'.symm.trans (hsame.symm.trans hkind))
    · rw [hsame, hdirectory, Option.some.injEq] at hkind
      have hlength := hin.length_le
      have hnil : front = [] := by
        rw [List.length_append, List.length_reverse] at hlength
        exact List.length_eq_zero_iff.1 (by omega)
      exact .inr (.inl ⟨hkind.symm, hnil⟩)
  · obtain rfl : front = names' := List.reverse_inj.1 (List.append_cancel_right hplace)
    rw [hnew.kind, Option.some.injEq] at hkind
    exact .inr (.inr hkind.symm)

/-- The directory that takes an entry is there when the entry is handled, unless a file has been there from the beginning. -/
theorem around (h : OrdinaryCall files source target location names)
    (hrun : Runs source target (files.withDirectory target) middle)
    (hdirectory : middle.isDirectory (source.joinAll front) = true) (hleads : middle.Leads (target.joinAll front)) :
    ∃ node, middle.find (target.joinAll front) = .ok ⟨front.reverse ++ (names.reverse ++ location), node, false⟩ ∧
      ((∃ mode entries, node = .directory mode entries) ∨
        node.kind = .file ∧ ∃ data, files.stat (target.joinAll front) = .ok (.file data)) := by
  have hadds := h.adds hrun
  have hgrows := (withDirectory_madeAt files target).grows.trans hadds.grows
  obtain ⟨spot, hfind⟩ := hleads
  have hfront := h.denotes.joinAll (walk_eq_ok_iff.1 (find_eq_ok_iff.1 hfind)).1
  have hplace : (names ++ front).reverse ++ location = front.reverse ++ (names.reverse ++ location) := by simp
  obtain ⟨node, hnode, rfl⟩ := (hfront.spells.grows hgrows).find_inv ((hadds.ordinary h.made).linkFree location) hfind
  rw [hplace] at hnode hfind
  refine ⟨node, hfind, ?_⟩
  have hkind := kind?_eq_some_iff.2 ⟨node, hnode, rfl⟩
  rcases ordinary_iff.1 (hadds.ordinary h.made) _ _ hkind with hnodeKind | hnodeKind
  · rw [hnodeKind] at hkind
    obtain ⟨mode, entries, hnode'⟩ := kind?_eq_directory_iff.1 hkind
    exact .inl ⟨mode, entries, Option.some.inj (hnode.symm.trans hnode')⟩
  · -- A file has been there from the beginning, since none comes there for a directory.
    rw [hnodeKind] at hkind
    rcases h.kind?_target hrun hkind with hfile | ⟨hfile, -⟩ | hfile
    · exact .inr ⟨hnodeKind, hfront.stat_file (h.ordinary.linkFree location) (hplace ▸ hfile)⟩
    · cases hfile
    · rw [if_pos hdirectory] at hfile
      cases hfile

/-- Where the source has a file, a directory of the target has been there from the beginning. -/
theorem stat_directory_of_kind? (h : OrdinaryCall files source target location names)
    (hrun : Runs source target (files.withDirectory target) middle) {data : FileData}
    (hcheck : checkPath (target.joinAll (front ++ [name])) = .ok ())
    (hfile : middle.stat (source.joinAll (front ++ [name])) = .ok (.file data))
    (hkind : middle.kind? ((front ++ [name]).reverse ++ (names.reverse ++ location)) = some .directory) :
    ∃ mode, files.stat (target.joinAll (front ++ [name])) = .ok (.directory mode) := by
  rcases h.kind?_target hrun hkind with hold | ⟨-, hnil⟩ | hnew
  · have hplace : (names ++ (front ++ [name])).reverse ++ location =
        (front ++ [name]).reverse ++ (names.reverse ++ location) := by simp
    exact (h.denotes.joinAll hcheck).stat_directory (h.ordinary.linkFree location) (hplace ▸ hold)
  · simp at hnil
  · obtain ⟨ref, hreads⟩ := stat_eq_file_iff.1 hfile
    rw [not_isDirectory_of_readsFile hreads] at hnew
    cases hnew

end OrdinaryCall

/-! ## Entries that cannot be taken over -/

/-- An entry of the target is of the wrong kind for an entry of the source, and the failure that comes of it. The path is
that of the entry of the target. -/
inductive Clash (files : FileSystem) (source target : Path) : Path → Failure → Prop where
  /-- A directory has to be made below a file. -/
  | directoryBelowFile {front : List FileName} {name : FileName} {mode : Mode} {data : FileData}
      (hsource : files.stat (source.joinAll (front ++ [name])) = .ok (.directory mode))
      (htarget : files.stat (target.joinAll front) = .ok (.file data)) :
      Clash files source target (target.joinAll front) (.call .create (target.joinAll (front ++ [name])) .notDirectory)
  /-- A file has to be copied to a place below a file. -/
  | fileBelowFile {front : List FileName} {name : FileName} {content data : FileData}
      (hsource : files.stat (source.joinAll (front ++ [name])) = .ok (.file content))
      (htarget : files.stat (target.joinAll front) = .ok (.file data)) :
      Clash files source target (target.joinAll front) (.call .copy (source.joinAll (front ++ [name])) .notDirectory)
  /-- A file has to be copied to where a directory is. -/
  | fileOntoDirectory {front : List FileName} {name : FileName} {content : FileData} {mode : Mode}
      (hsource : files.stat (source.joinAll (front ++ [name])) = .ok (.file content))
      (htarget : files.stat (target.joinAll (front ++ [name])) = .ok (.directory mode)) :
      Clash files source target (target.joinAll (front ++ [name])) (.call .copy (source.joinAll (front ++ [name])) .isDirectory)

/-- No directory can be provided below a file. -/
theorem provideDirectory_below_file {path : Path} {rest : List FileName}
    (hspells : progress.files.Spells path location (front ++ name :: rest)) (hfree : progress.files.LinkFree location)
    (hcheck : checkPath path = .ok ()) (hkind : progress.files.kind? (front.reverse ++ location) = some .file) :
    provideDirectory path progress = .fail (.call .create path .notDirectory) progress := by
  have hmissing : isMissing progress.files path = true :=
    isMissing_iff.2 (not_or.2 ⟨not_isEmpty_of_checkPath hcheck, hspells.not_leads_below_file hfree hkind⟩)
  unfold provideDirectory
  simp only [hspells.makeDirectories_below_file hfree hkind hcheck, missingCount, hmissing, if_true, Nat.add_eq_zero_iff,
    one_ne_zero, and_false, if_false]

/-- A file that is not copied is named by its path in the source. -/
theorem copyFile_of_error {read path : Path} {error : SystemError} (h : progress.files.copyFile read path = .error error) :
    copyFile read path progress = .fail (.call .copy read error) progress := by
  rw [copyFile, h]

/-- What the source had at first is of the same kind later. -/
theorem stat_grows_cases {path : Path} {entry : Entry} (hordinary : files.Ordinary) (hgrows : files.Grows middle)
    (hstat : files.stat path = .ok entry) :
    (∃ mode, entry = .directory mode ∧ middle.stat path = .ok (.directory mode)) ∨
      ∃ content content', entry = .file content ∧ middle.stat path = .ok (.file content') := by
  rcases stat_directory_or_file hordinary hstat with ⟨mode, rfl⟩ | ⟨content, rfl⟩
  · exact .inl ⟨mode, rfl, stat_directory_grows hstat hgrows⟩
  · obtain ⟨entry', hstat', hkept⟩ := hgrows.stat hstat
    cases hkept with
    | same => exact .inr ⟨content, content, rfl, hstat'⟩
    | file _ content' => exact .inr ⟨content, content', rfl, hstat'⟩

section Fails

variable (h : OrdinaryCall files source target location names)
  (hrun : Runs source target (files.withDirectory target) progress.files) {entry : Entry} {failure : Failure}
  (hstat : files.stat (source.joinAll (front ++ [name])) = .ok entry)
  (hcheck : checkPath (target.joinAll (front ++ [name])) = .ok ())
  (hfail : handleEntry ((Job.mk source target).along front) name progress = .fail failure progress)

include h hrun hstat hcheck hfail

/-- Below a file no entry can be taken over. -/
theorem OrdinaryCall.clash_below_file {node : Node} {data : FileData}
    (hfind : progress.files.find (target.joinAll front) = .ok ⟨front.reverse ++ (names.reverse ++ location), node, false⟩)
    (hkind : node.kind = .file) (hfile : files.stat (target.joinAll front) = .ok (.file data)) :
    Clash files source target (target.joinAll front) failure := by
  have hadds := h.adds hrun
  have hgrows := (withDirectory_madeAt files target).grows.trans hadds.grows
  have hinner : ((Job.mk source target).along front).inner name = (Job.mk source target).along (front ++ [name]) :=
    Job.inner_along _ _ _
  rcases stat_grows_cases h.ordinary hgrows hstat with ⟨mode, rfl, hstat'⟩ | ⟨content, content', rfl, hstat'⟩
  · have hplace : (names ++ front).reverse ++ location = front.reverse ++ (names.reverse ++ location) := by simp
    have hkind' : progress.files.kind? ((names ++ front).reverse ++ location) = some .file :=
      kind?_eq_some_iff.2 ⟨node, hplace ▸ (find_becomes hfind).node? rfl, hkind⟩
    have hspells : progress.files.Spells (target.joinAll (front ++ [name])) location (names ++ front ++ name :: []) := by
      rw [List.append_assoc]
      exact (h.denotes.spells.grows hgrows).joinAll (front ++ [name])
    have hprovide := provideDirectory_below_file hspells ((hadds.ordinary h.made).linkFree location) hcheck hkind'
    rw [handleEntry_directory (by rw [hinner]; exact hstat'), hinner, Job.along, hprovide] at hfail
    cases hfail
    exact .directoryBelowFile hstat hfile
  · obtain ⟨ref, hreads⟩ := stat_eq_file_iff.1 hstat'
    have hdestination := destination_below_file hfind hkind (Path.joinAll_concat target front name ▸ hcheck)
    rw [← Path.joinAll_concat] at hdestination
    have hcopy := copyFile_of_error (copyFile_of_destination_error hreads hdestination)
    rw [handleEntry_other (by rw [hinner]; exact hstat') (by simp), hinner, Job.along, hcopy] at hfail
    cases hfail
    exact .fileBelowFile hstat hfile

/-- In a directory an entry cannot be taken over only if it is a file and a directory is in its place. -/
theorem OrdinaryCall.clash_in_directory {mode : Mode} {entries : List (FileName × Node)}
    (hfind : progress.files.find (target.joinAll front) =
      .ok ⟨front.reverse ++ (names.reverse ++ location), .directory mode entries, false⟩) :
    Clash files source target (target.joinAll (front ++ [name])) failure := by
  have hadds := h.adds hrun
  have hordinary := hadds.ordinary h.made
  have hgrows := (withDirectory_madeAt files target).grows.trans hadds.grows
  have hinner : ((Job.mk source target).along front).inner name = (Job.mk source target).along (front ++ [name]) :=
    Job.inner_along _ _ _
  have henters : progress.files.Enters (target.joinAll front) name (front.reverse ++ (names.reverse ++ location)) mode entries :=
    ⟨(directory_of_find hfind).symm ▸ hfind, Path.joinAll_concat target front name ▸ hcheck⟩
  have hchild : progress.files.node? ((front ++ [name]).reverse ++ (names.reverse ++ location)) = entries.lookup name := by
    have hnode := (find_becomes hfind).node? rfl
    rw [List.reverse_append, List.reverse_singleton, List.singleton_append, List.cons_append, node?_cons, hnode]
    rfl
  obtain ⟨entry', hstat', -⟩ := hgrows.stat hstat
  by_cases hclear : (∃ data, entry' = .file data) → ∀ mode' entries', entries.lookup name ≠ some (.directory mode' entries')
  · have hlink : ∀ target, entries.lookup name ≠ some (.link target) :=
      fun target hlookup => hordinary.not_link target (hchild.trans hlookup)
    obtain ⟨inner, after, hok⟩ : ∃ inner after,
        handleEntry ((Job.mk source target).along front) name progress = .ok inner after :=
      handleEntry_of_enters henters (by rw [hinner]; exact hstat') (stat_directory_or_file hordinary hstat') hlink hclear
    rw [hfail] at hok
    cases hok
  · push Not at hclear
    obtain ⟨⟨content', rfl⟩, mode', entries', hlookup⟩ := hclear
    obtain ⟨old, hold⟩ := h.stat_directory_of_kind? hrun hcheck hstat'
      (kind?_eq_directory_iff.2 ⟨mode', entries', hchild.trans hlookup⟩)
    obtain ⟨ref, hreads⟩ := stat_eq_file_iff.1 hstat'
    have hdestination := destination_of_directory henters hlookup
    rw [← Path.joinAll_concat] at hdestination
    have hcopy := copyFile_of_error (copyFile_of_destination_error hreads hdestination)
    rw [handleEntry_other (by rw [hinner]; exact hstat') (by simp), hinner, Job.along, hcopy] at hfail
    cases hfail
    rcases stat_grows_cases h.ordinary hgrows hstat with ⟨mode, rfl, hstat''⟩ | ⟨content, _, rfl, -⟩
    · rw [hstat'] at hstat''
      cases hstat''
    · exact .fileOntoDirectory hstat hold

end Fails

/-- If an entry fails, an entry of the target is of the wrong kind. -/
theorem OrdinaryCall.clash_of_stuck (h : OrdinaryCall files source target location names)
    (hsource : files.isDirectory source = true) (hrun : Runs source target (files.withDirectory target) progress.files)
    {failure : Failure} (hstuck : Stuck ⟨source, target⟩ (files.withDirectory target) progress failure) :
    ∃ path, Clash files source target path failure := by
  obtain ⟨front, name, listed, ⟨middle, hrunMiddle, hrunAfter, hlist⟩, hname, hprovided, hfail⟩ := hstuck
  obtain ⟨⟨entry, hstat⟩, hcheck⟩ := h.entry_of_listed hsource hrunMiddle hlist hname
  have hdirectory := isDirectory_grows (isDirectory_of_list hlist) hrunAfter.grows
  have hleads : progress.files.Leads (target.joinAll front) :=
    hprovided.resolve_left (Path.not_isEmpty_joinAll (not_isEmpty_of_checkPath h.denotes.accepted) front)
  obtain ⟨node, hfind, ⟨mode, entries, rfl⟩ | ⟨hkind, data, hfile⟩⟩ := h.around hrun hdirectory hleads
  · exact ⟨_, h.clash_in_directory hrun hstat hcheck hfail hfind⟩
  · exact ⟨_, h.clash_below_file hrun hstat hcheck hfail hfind hkind hfile⟩

/-- No entry of the target is of the wrong kind for an entry of the source: above it there is no file, and where the source
has a file there is no directory. -/
def Agrees (files : FileSystem) (source target : Path) : Prop :=
  ∀ front name entry, files.stat (source.joinAll (front ++ [name])) = .ok entry →
    (∀ data, files.stat (target.joinAll front) ≠ .ok (.file data)) ∧
    ∀ data, entry = .file data → ∀ mode, files.stat (target.joinAll (front ++ [name])) ≠ .ok (.directory mode)

/-- If source and target agree, no entry fails. -/
theorem OrdinaryCall.not_stuck (h : OrdinaryCall files source target location names) (hagrees : Agrees files source target)
    (hsource : files.isDirectory source = true) (hrun : Runs source target (files.withDirectory target) progress.files)
    {failure : Failure} : ¬ Stuck ⟨source, target⟩ (files.withDirectory target) progress failure := by
  intro hstuck
  obtain ⟨path, hclash⟩ := h.clash_of_stuck hsource hrun hstuck
  cases hclash with
  | directoryBelowFile hentry hfile => exact (hagrees _ _ _ hentry).1 _ hfile
  | fileBelowFile hentry hfile => exact (hagrees _ _ _ hentry).1 _ hfile
  | fileOntoDirectory hentry hdirectory => exact (hagrees _ _ _ hentry).2 _ rfl _ hdirectory

/-- A file is only written into a directory. -/
theorem stat_of_copyFile {read path : Path} {made : FileSystem} (hempty : ¬ path.isEmpty)
    (h : files.copyFile read (path.join name) = .ok made) : ∃ mode, files.stat path = .ok (.directory mode) := by
  obtain ⟨_, _, destination, -, hdestination, -⟩ := copyFile_inv h
  have hdirectory := isDirectory_directory_of_destination (List.cons_ne_nil name []) hdestination
  rw [directory_eq_self hempty] at hdirectory
  exact isDirectory_iff.1 hdirectory

/-- A path does not lead to a file and, later, to a directory. -/
theorem not_stat_file_of_grows {path : Path} {data : FileData} {mode : Mode} (hgrows : files.Grows middle)
    (h : middle.stat path = .ok (.directory mode)) : files.stat path ≠ .ok (.file data) := by
  intro hfile
  obtain ⟨entry, hentry, hkept⟩ := hgrows.stat hfile
  rw [h, Except.ok.injEq] at hentry
  subst hentry
  cases hkept

/-- Where everything was handled, source and target agreed. -/
theorem agrees_of_covered {final : FileSystem} (hempty : ¬ target.isEmpty)
    (hcovered : CoveredBelow source target ⟨source, target⟩ (files.withDirectory target) final)
    (hrun : Runs source target (files.withDirectory target) final) : Agrees files source target := by
  intro front name entry hstat
  have hmade := withDirectory_madeAt files target
  have hstat' := hmade.stat hstat
  have hfront := Path.not_isEmpty_joinAll hempty front
  have hcover := hcovered (front ++ [name]) (by simp) (leads_of_stat hstat')
  by_cases hdirectory : ∃ mode, entry = .directory mode
  · obtain ⟨mode, rfl⟩ := hdirectory
    have hleads : final.Leads ((target.joinAll front).joinAll [name]) := by
      rw [← Path.joinAll_append]
      exact hcover.directory mode hstat'
    obtain ⟨mode', hmode'⟩ := stat_of_joinAll hfront (by simp) hleads
    refine ⟨fun data => not_stat_file_of_grows (hmade.grows.trans hrun.grows) hmode', ?_⟩
    intro data hdata
    cases hdata
  · have hother : ∀ mode, (files.withDirectory target).stat (source.joinAll (front ++ [name])) ≠ .ok (.directory mode) := by
      intro mode hmode
      rw [hstat', Except.ok.injEq] at hmode
      exact hdirectory ⟨mode, hmode⟩
    obtain ⟨before, after, hbefore, hcopy, -⟩ := hcover.file (leads_of_stat hstat') hother
    have hgrows := hmade.grows.trans hbefore.grows
    have hcopy' : before.copyFile (source.joinAll (front ++ [name])) (target.joinAll (front ++ [name])) = .ok after := hcopy
    constructor
    · rw [Path.joinAll_concat target] at hcopy'
      obtain ⟨mode, hmode⟩ := stat_of_copyFile hfront hcopy'
      exact fun data => not_stat_file_of_grows hgrows hmode
    · intro data _ mode hmode
      exact stat_ne_directory_of_copyFile hcopy' mode (stat_directory_grows hmode hgrows)

namespace OrdinaryCall

/-- A file above the target is on the way to it. -/
theorem file_on_the_way (h : OrdinaryCall files source target location names) {path : Path} {data : FileData}
    (hpath : path ∈ target.properAncestors) (hstat : files.stat path = .ok (.file data)) :
    ∃ front name after, names = front ++ name :: after ∧ files.kind? (front.reverse ++ location) = some .file := by
  obtain ⟨hbegins, front, name, after, rfl, hsteps⟩ := Path.mem_properAncestors h.denotes.steps hpath
  obtain ⟨mode, entries, horigin⟩ := h.denotes.origin
  obtain ⟨spot, hfind, hentry⟩ := stat_eq_ok_iff.1 hstat
  obtain ⟨node, hnode, rfl⟩ := (h.ordinary.linkFree location).find_beginning h.denotes.accepted horigin hbegins hsteps hfind
  refine ⟨front, name, after, rfl, kind?_eq_some_iff.2 ⟨node, hnode, ?_⟩⟩
  cases node with
  | file _ => rfl
  | shared _ => rfl
  | _ => cases hentry

/-- Above a target that is there, there is no file. -/
theorem no_file_above (h : OrdinaryCall files source target location names)
    (hleads : (files.withDirectory target).Leads target) {path : Path} (hpath : path ∈ target.properAncestors)
    (data : FileData) : files.stat path ≠ .ok (.file data) := by
  intro hstat
  obtain ⟨front, name, after, rfl, hkind⟩ := h.file_on_the_way hpath hstat
  -- A file stays one, and nothing is below it.
  have hgrows := (withDirectory_madeAt files target).grows
  exact (h.denotes.spells.grows hgrows).not_leads_below_file (h.made.linkFree location) (hgrows.kind? hkind) hleads

/-- If no file is on the way to a missing target, nothing but directories is. -/
theorem passable (h : OrdinaryCall files source target location names) (hmissing : ¬ files.Leads target)
    (habove : ∀ path ∈ target.properAncestors, ∀ data, files.stat path ≠ .ok (.file data)) :
    files.Passable location names := by
  rintro front ⟨rest, rfl⟩ kind hkind
  cases rest with
  | nil =>
    obtain ⟨node, hnode, -⟩ := kind?_eq_some_iff.1 hkind
    rw [List.append_nil] at h
    exact absurd ⟨_, h.denotes.find (h.ordinary.linkFree location) hnode⟩ hmissing
  | cons name after =>
    refine (ordinary_iff.1 h.ordinary _ _ hkind).resolve_right fun hfile => ?_
    subst hfile
    by_cases hnil : front = []
    · subst hnil
      have hstart := h.denotes.kind?_start
      rw [List.reverse_nil, List.nil_append, hstart] at hkind
      cases hkind
    · obtain ⟨parent, hparent, hbegins, hsteps, hends⟩ := Path.exists_properAncestor h.denotes.steps
      obtain ⟨data, hdata⟩ := (h.denotes.beginning hbegins hsteps (hends hnil) hnil).stat_file (h.ordinary.linkFree location) hkind
      exact habove parent hparent data hdata

/-- The target can be made if no file is on the way to it. -/
theorem provides (h : OrdinaryCall files source target location names)
    (habove : ∀ path ∈ target.properAncestors, ∀ data, files.stat path ≠ .ok (.file data)) :
    ∃ progress, provideDirectory target ⟨files, ⟨0, 0⟩⟩ = .ok () progress := by
  by_cases hleads : files.Leads target
  · exact ⟨_, provideDirectory_of_provided (.inr hleads)⟩
  · have hmade := makeDirectories_of_passable h.denotes.spells h.denotes.accepted (h.ordinary.linkFree location)
      (h.passable hleads habove)
    unfold provideDirectory
    simp only [hmade]
    split
    · exact ⟨_, rfl⟩
    · exact ⟨_, rfl⟩

end OrdinaryCall

/-- A deployment among directories and regular files succeeds just if the source is a directory, no file is on the way to the
target, and no entry of the target is of the wrong kind. -/
theorem deploy_succeeds_iff (files : FileSystem) (order : ListingOrder) (source target : Path) (location : Location)
    (names : List FileName) (h : OrdinaryCall files source target location names) :
    (∃ report, (files.deploy order source target).result = .ok report) ↔
      (∃ mode, files.stat source = .ok (.directory mode)) ∧
      (∀ path ∈ target.properAncestors, ∀ data, files.stat path ≠ .ok (.file data)) ∧ Agrees files source target := by
  have hempty := not_isEmpty_of_checkPath h.denotes.accepted
  constructor
  · rintro ⟨report, hreport⟩
    obtain ⟨hsource, hprovided, hrun, hcovered⟩ := FileSystem.deploy_covers hreport
    exact ⟨hsource, fun path hpath => h.no_file_above (hprovided.resolve_left hempty) hpath,
      agrees_of_covered hempty hcovered hrun⟩
  · rintro ⟨hsource, habove, hagrees⟩
    have hdirectory := isDirectory_iff.2 hsource
    have hgoes := deploy_goes files order source target
    generalize files.deploy order source target = outcome at hgoes
    cases hgoes with
    | noSource hnot =>
      rw [hdirectory] at hnot
      cases hnot
    | noTarget _ hfail =>
      obtain ⟨progress, hok⟩ := h.provides habove
      rw [hfail] at hok
      cases hok
    | stuck _ _ hhandles hstuck => exact absurd hstuck (h.not_stuck hagrees hdirectory hhandles.runs)
    | done _ _ _ _ => exact ⟨_, rfl⟩

/-! ## A small deployment -/

/-- Whether no link and no device is in a file system. -/
def isOrdinary (files : FileSystem) : Bool :=
  (files.root.nodes []).all fun entry =>
    match entry.2 with
    | .link _ => false
    | .device => false
    | _ => true

theorem ordinary_of_isOrdinary (h : isOrdinary files = true) : files.Ordinary := by
  intro place entry hentry
  obtain ⟨node, hnode, rfl⟩ := Option.map_eq_some_iff.1 hentry
  have hmem := List.all_eq_true.1 h _ (Node.mem_nodes_of_at? [] hnode)
  cases node with
  | directory mode entries => exact .inl ⟨mode, rfl⟩
  | file data => exact .inr ⟨data, rfl⟩
  | shared id => exact .inr ⟨files.shared id, rfl⟩
  | link target => cases hmem
  | device => cases hmem

/-- Whether the system accepts the path of everything below a directory, in the source and in the target. -/
def acceptsBelow (source target : Path) (node : Node) : Bool :=
  (node.nodes []).all fun entry =>
    (checkPath (source.joinAll entry.1.reverse)).toBool && (checkPath (target.joinAll entry.1.reverse)).toBool

theorem checkPath_of_toBool {path : Path} (h : (checkPath path).toBool = true) : checkPath path = .ok () := by
  cases hcheck : checkPath path with
  | error error => simp [hcheck, Except.toBool] at h
  | ok _ => rfl

theorem accepted_of_acceptsBelow {base node : Node} (h : acceptsBelow source target base = true)
    (hbase : files.node? place = some base) (hnode : files.node? (names.reverse ++ place) = some node) :
    checkPath (source.joinAll names) = .ok () ∧ checkPath (target.joinAll names) = .ok () := by
  rw [node?_append, hbase, Option.bind_some] at hnode
  have hmem := List.all_eq_true.1 h _ (Node.mem_nodes_of_at? [] hnode)
  rw [List.append_nil, List.reverse_reverse, Bool.and_eq_true] at hmem
  exact ⟨checkPath_of_toBool hmem.1, checkPath_of_toBool hmem.2⟩

/-- What can be checked of a deployment among directories and regular files. -/
theorem ordinaryCall_of_checks {mode : Mode} {entries : List (FileName × Node)} (hordinary : isOrdinary files = true)
    (hdenotes : files.Denotes target location names)
    (hfind : files.find source = .ok ⟨place, .directory mode entries, false⟩)
    (hapart : ¬ place <:+ names.reverse ++ location ∧ ¬ names.reverse ++ location <:+ place)
    (haccepts : acceptsBelow source target (.directory mode entries) = true) :
    OrdinaryCall files source target location names := by
  refine ⟨ordinary_of_isOrdinary hordinary, hdenotes, ?_, ?_⟩
  · intro place' mode' entries' hfind'
    rw [hfind] at hfind'
    cases hfind'
    exact hapart
  · intro place' mode' entries' hfind' names' node hnode
    rw [hfind] at hfind'
    cases hfind'
    exact accepted_of_acceptsBelow haccepts ((find_becomes hfind).node? rfl) hnode

/-- A name below `t`. -/
def innerName : FileName :=
  ⟨[0x75], by decide⟩

theorem ordinaryCall_twoDirectories :
    OrdinaryCall twoDirectories (.ofString "s") (.ofString "t/u") [] [targetName, innerName] := by
  have hfind : twoDirectories.find (.ofString "s") =
      .ok ⟨[directoryName], .directory 0o755 [(fileName, .file ⟨[0x78], 0o644⟩)], false⟩ := rfl
  exact ordinaryCall_of_checks (by cbv) ⟨rfl, rfl, rfl, _, _, rfl⟩ hfind (by decide) (by cbv)

theorem agrees_twoDirectories : OrdinaryCall twoDirectories (.ofString "s") (.ofString "t/u") [] [targetName, innerName] ∧
    (twoDirectories.deploy .byName (.ofString "s") (.ofString "t/u")).result = .ok ⟨1, 1⟩ ∧
    Agrees twoDirectories (.ofString "s") (.ofString "t/u") := by
  have hresult : (twoDirectories.deploy .byName (.ofString "s") (.ofString "t/u")).result = .ok ⟨1, 1⟩ := by cbv
  have hiff := deploy_succeeds_iff twoDirectories .byName (.ofString "s") (.ofString "t/u") [] [targetName, innerName]
    ordinaryCall_twoDirectories
  exact ⟨ordinaryCall_twoDirectories, hresult, (hiff.1 ⟨_, hresult⟩).2.2⟩

end Deployment

end ConsoleKit
