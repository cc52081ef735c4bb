import ConsoleKit.Proofs.Deployment.Resolution

/-!
# Sources that can be listed in full

Whether a source is resolved, looks like another one, and is separated from a target speaks about all names there are. If the
directories of a source are known, everything in it can be listed (`inventory`), and that the list is complete can be computed
(`isInventory`). What is said about the source is then said about the names on the list.
-/

namespace ConsoleKit

open FileSystem

namespace Deployment

variable {files files' : FileSystem} {source source' target : Path} {directories directories' : List (List FileName)}
  {names : List FileName} {base : Spot}

/-- The names in a source, if the given ones are those of its directories. -/
def inventory (files : FileSystem) (source : Path) (directories : List (List FileName)) : List (List FileName) :=
  [] :: directories.flatMap fun front =>
    ((files.list (source.joinAll front)).toOption.getD []).map fun name => front ++ [name]

/-- Whether all the names lead somewhere, and to directories only if they are given as such. -/
def isInventory (files : FileSystem) (source : Path) (directories : List (List FileName)) : Bool :=
  (inventory files source directories).all fun names =>
    files.contains (source.joinAll names) &&
      (!files.isDirectory (source.joinAll names) || directories.contains names)

/-- Whether something holds of all places that a source leads to. -/
def isEverywhere (files : FileSystem) (source : Path) (directories : List (List FileName)) (holds : Location → Bool) : Bool :=
  (inventory files source directories).all fun names =>
    match files.find (source.joinAll names) with
    | .ok spot => holds spot.location
    | .error _ => true

theorem mem_inventory_concat {front listed : List FileName} {name : FileName} (hfront : front ∈ directories)
    (hlist : files.list (source.joinAll front) = .ok listed) (hname : name ∈ listed) :
    front ++ [name] ∈ inventory files source directories := by
  refine List.mem_cons_of_mem _ (List.mem_flatMap.2 ⟨front, hfront, List.mem_map.2 ⟨name, ?_, rfl⟩⟩)
  rw [hlist]
  exact hname

section Inventory

variable (h : isInventory files source directories = true)

include h

theorem isInventory_mem (hnames : names ∈ inventory files source directories) :
    files.Leads (source.joinAll names) ∧ (files.isDirectory (source.joinAll names) = true → names ∈ directories) := by
  have hmem := List.all_eq_true.1 h names hnames
  rw [Bool.and_eq_true, Bool.or_eq_true, Bool.not_eq_true', List.contains_iff_mem] at hmem
  refine ⟨contains_eq_true_iff.1 hmem.1, ?_⟩
  intro hdirectory
  rcases hmem.2 with hnot | hmem
  · rw [hdirectory] at hnot
    cases hnot
  · exact hmem

theorem leads_of_isInventory : files.Leads source := by
  have hmem : [] ∈ inventory files source directories := .head _
  exact (isInventory_mem h hmem).1

/-- Everything that the source has is on the list. The induction is on the names, the last one first. -/
theorem mem_inventory_iff : names ∈ inventory files source directories ↔ files.Leads (source.joinAll names) := by
  refine ⟨fun hnames => (isInventory_mem h hnames).1, ?_⟩
  intro hleads
  induction names using List.reverseRecOn with
  | nil => exact .head _
  | append_singleton front name ih =>
    have hdirectory := isDirectory_of_leads_concat (leads_of_isInventory h) hleads
    have hfront := (isInventory_mem h (ih (leads_of_isDirectory hdirectory))).2 hdirectory
    obtain ⟨listed, hlist⟩ := list_of_isDirectory hdirectory
    rw [Path.joinAll_append] at hleads
    exact mem_inventory_concat hfront hlist (mem_list hleads hlist)

theorem resolved_of_isInventory : Resolved files source := by
  refine ⟨leads_of_isInventory h, ?_⟩
  intro front listed name hlist hname
  have hdirectory := isDirectory_of_list hlist
  have hfront := (isInventory_mem h ((mem_inventory_iff h).2 (leads_of_isDirectory hdirectory))).2 hdirectory
  exact (mem_inventory_iff h).1 (mem_inventory_concat hfront hlist hname)

/-- Two sources have the same entries if they have the same that can be listed. -/
theorem entryAt_eq_of_isInventory (h' : isInventory files' source' directories' = true)
    (hsame : (inventory files source directories).map (fun names => (names, files.entryAt (source.joinAll names))) =
      (inventory files' source' directories').map fun names => (names, files'.entryAt (source'.joinAll names)))
    (names : List FileName) : files.entryAt (source.joinAll names) = files'.entryAt (source'.joinAll names) := by
  have hnames : inventory files source directories = inventory files' source' directories' := by
    have hfirst := congrArg (List.map Prod.fst) hsame
    simpa [List.map_map, Function.comp_def] using hfirst
  by_cases hmem : names ∈ inventory files source directories
  · rw [← hnames] at hsame
    exact congrArg Prod.snd (List.map_inj_left.1 hsame names hmem)
  · have hmem' := hmem
    rw [hnames, mem_inventory_iff h'] at hmem'
    rw [mem_inventory_iff h] at hmem
    rw [entryAt_of_not_leads hmem, entryAt_of_not_leads hmem']

/-! ## Separation -/

theorem find_of_isInventory {spot : Spot} (hreached : files.Reaches source spot) :
    ∃ names ∈ inventory files source directories, files.find (source.joinAll names) = .ok spot := by
  rcases reaches_inv hreached with hfind | ⟨names, -, hfind⟩
  · obtain ⟨start, hstart⟩ := leads_of_isInventory h
    rw [directory_of_find hstart] at hfind
    exact ⟨[], .head _, hfind⟩
  · exact ⟨names, (mem_inventory_iff h).2 ⟨spot, hfind⟩, hfind⟩

theorem of_isEverywhere {holds : Location → Bool} (heverywhere : isEverywhere files source directories holds = true)
    {spot : Spot} (hreached : files.Reaches source spot) : holds spot.location = true := by
  obtain ⟨names, hnames, hfind⟩ := find_of_isInventory h hreached
  have hholds := List.all_eq_true.1 heverywhere names hnames
  rwa [hfind] at hholds

/-- A source is separated from a plain target that is there if it reaches nothing in it. -/
theorem separated_of_isInventory (htarget : files.find target = .ok base) (hlive : base.removed = false)
    (hplain : base.node.isPlain)
    (hplaces : isEverywhere files source directories (fun place => !base.location.isSuffixOf place) = true) :
    files.Separated source target := by
  have htarget' : files.find target.directory = .ok base := (directory_of_find htarget).symm ▸ htarget
  have hnowhere := linksNowhere_of_isPlain ((find_becomes htarget').node? hlive) hplain
  have hapart : files.SeparatedAtFirst source target := by
    refine ⟨?_, fun a _ _ => not_receives_of_find htarget a.location⟩
    rintro a b hreached hreached' (⟨hplace, -⟩ | ⟨id, -, hid⟩)
    · have houtside := of_isEverywhere h hplaces hreached
      have hsuffix := List.isSuffixOf_iff_suffix.2 (suffix_of_reaches htarget' hlive hnowhere hreached')
      rw [← hplace] at hsuffix
      simp [hsuffix] at houtside
    · exact not_shared_of_reaches htarget' hplain hreached' id hid
  exact hapart.separated htarget

/-- A target that leads nowhere at first is separated at first from a source in which it is not made. -/
theorem separatedAtFirst_of_isInventory {error : SystemError} (htarget : files.find target.directory = .error error)
    (hplaces : isEverywhere files source directories (fun place => files.clearOf place target) = true) :
    files.SeparatedAtFirst source target := by
  constructor
  · intro a b _ hreached
    obtain ⟨base, hbase⟩ := find_directory_of_reaches hreached
    rw [htarget] at hbase
    cases hbase
  · rintro a hreached - hreceives
    obtain ⟨name, path, hpath, spot, hfind, hplace⟩ := receives_inv hreceives
    have hclear := of_isEverywhere h hplaces hreached
    refine not_suffix_of_clearOf hclear path hpath spot hfind ?_
    rw [hplace, List.tail_cons]

end Inventory

end Deployment

end ConsoleKit
