import ConsoleKit.Proofs.Deployment.Inventory

/-!
# Links and what they lead to

To deploy links is to deploy what they lead to (`deploy_alike`): two resolved sources that look alike, one of them full of
links perhaps and the other without any, can be deployed into the same targets, are reported alike, and leave the same. The
target has no link afterwards, as it had none before.
-/

namespace ConsoleKit

open FileSystem

namespace Deployment

variable {files : FileSystem} {order order' : ListingOrder} {source source' target : Path} {report : Report}

/-- A tree without links is resolved if the system accepts the paths of all its entries. -/
theorem resolved_of_linkFree (hfree : files.LinkFreeBelow source) (hleads : files.Leads source)
    (haccepted : ∀ front listed name, files.list (source.joinAll front) = .ok listed → name ∈ listed →
      checkPath (source.joinAll (front ++ [name])) = .ok ()) : Resolved files source := by
  refine ⟨hleads, ?_⟩
  intro front listed name hlist hname
  obtain ⟨spot, hfind⟩ := leads_of_isDirectory (isDirectory_of_list hlist)
  obtain ⟨hlive, node, hnode⟩ := (mem_list_iff hlist hfind).1 hname
  obtain ⟨base, hbase, hbaselive, hplace⟩ := find_joinAll_place hfree hlive hfind
  rw [hplace] at hnode
  have hcheck := haccepted front listed name hlist hname
  exact ⟨_, find_joinAll_of_node? hfree hbase hbaselive hcheck (by simp) (by simpa using hnode)⟩

/-- What holds of a target once its missing part is made holds from the beginning if it leads anywhere. -/
theorem plainBelow_of_withDirectory (hplain : (files.withDirectory target).PlainBelow target) : files.PlainBelow target := by
  intro base hbase
  have hprovided : Provided files target := by
    by_cases hempty : target.isEmpty = true
    · exact .inl hempty
    · rw [Path.directory, if_neg hempty] at hbase
      exact .inr ⟨base, hbase⟩
  rw [withDirectory_of_provided hprovided] at hplain
  exact hplain base hbase

/-- A deployment, whether it succeeds or not, brings no link and no file with several names to its target. -/
theorem deploy_plainBelow (order : ListingOrder) (hplain : (files.withDirectory target).PlainBelow target) :
    (files.deploy order source target).files.PlainBelow target := by
  rcases files.deploy_runs order source target with hsame | hrun
  · rw [hsame]
    exact plainBelow_of_withDirectory hplain
  · exact (confined_of_runs hplain hrun).plainBelow hplain

section Alike

variable (hsep : files.Separated source target) (hsep' : files.Separated source' target)
  (hplain : (files.withDirectory target).PlainBelow target) (hresolved : Resolved files source)
  (hresolved' : Resolved files source') (halike : Alike files source files source')

include hsep hsep' hplain hresolved hresolved' halike

/-- If one of two sources that look alike can be deployed, the other one can, and it comes to the same. -/
theorem deploy_eq_of_alike (order' : ListingOrder) (h : (files.deploy order source target).result = .ok report) :
    files.deploy order' source' target = files.deploy order source target := by
  obtain ⟨trace, progress, hfinishes, hprovide, hdeploy⟩ := finishes_of_ok hsep hplain hresolved h
  have hclear : ∀ front name entry, files.stat (source'.joinAll (front ++ [name])) = .ok entry →
      Clear (files.withDirectory target) target front name entry := by
    intro front name entry hstat
    obtain ⟨entry', hstat', hentry⟩ := halike.symm.stat hstat
    exact (hfinishes.clear hstat').alike hentry.symm
  have hsource := halike.isDirectory_source hfinishes.directory
  obtain ⟨trace', progress', hfinishes', hdeploy'⟩ := finishes_of_clear hsep' hplain hresolved' order' hsource hprovide hclear
  rw [hdeploy, hdeploy', hfinishes.files_eq hfinishes' halike, hfinishes.report_eq hfinishes' halike]

end Alike

/-- **Links are what they lead to.** Of two sources in which every link leads somewhere and which look alike with links
followed, one can be deployed if and only if the other can. The report is the same, and so is the file system that is left, in
which nothing below the target is a link. -/
theorem deploy_alike (files : FileSystem) (order order' : ListingOrder) (source source' target : Path)
    (hsep : files.Separated source target) (hsep' : files.Separated source' target)
    (hplain : (files.withDirectory target).PlainBelow target) (hresolved : Resolved files source)
    (hresolved' : Resolved files source') (halike : Alike files source files source') :
    ((∃ report, (files.deploy order source target).result = .ok report) ↔
      ∃ report, (files.deploy order' source' target).result = .ok report) ∧
    (∀ report, (files.deploy order source target).result = .ok report →
      files.deploy order' source' target = files.deploy order source target) ∧
    (files.deploy order source target).files.PlainBelow target ∧
    (files.deploy order' source' target).files.PlainBelow target := by
  have hsame : ∀ report, (files.deploy order source target).result = .ok report →
      files.deploy order' source' target = files.deploy order source target :=
    fun report => deploy_eq_of_alike hsep hsep' hplain hresolved hresolved' halike order'
  refine ⟨⟨?_, ?_⟩, hsame, deploy_plainBelow order hplain, deploy_plainBelow order' hplain⟩
  · rintro ⟨report, hreport⟩
    exact ⟨report, hsame report hreport ▸ hreport⟩
  · rintro ⟨report, hreport⟩
    have hback := deploy_eq_of_alike hsep' hsep hplain hresolved' hresolved halike.symm order hreport
    exact ⟨report, hback ▸ hreport⟩

/-! ## A tree with links, and one without -/

/-- A file system with a directory `s` in which `f` is a file, `l` a link to it, and `x` a link to the directory `y`; a plain
directory `p` that has what `s` has with links followed; and an empty directory `t`. -/
def linkedTrees : FileSystem :=
  built do
    let files ← FileSystem.empty.writeFile (.ofString "s/f") [0x78]
    let files ← files.makeLink (.ofString "s/l") (.ofString "f")
    let files ← files.makeLink (.ofString "s/x") (.ofString "../y")
    let files ← files.writeFile (.ofString "y/f") [0x79]
    let files ← files.writeFile (.ofString "p/f") [0x78]
    let files ← files.writeFile (.ofString "p/l") [0x78]
    let files ← files.writeFile (.ofString "p/x/f") [0x79]
    files.ensurePath (.ofString "t")

theorem isInventory_links : isInventory linkedTrees (.ofString "s") [[], [firstName]] = true := by
  cbv

theorem isInventory_contents : isInventory linkedTrees (.ofString "p") [[], [firstName]] = true := by
  cbv

theorem find_target_linkedTrees : linkedTrees.find (.ofString "t") = .ok ⟨[targetName], .directory 0o755 [], false⟩ := by
  cbv

theorem alike_linkedTrees : Alike linkedTrees (.ofString "s") linkedTrees (.ofString "p") := by
  refine .of_entryAt (entryAt_eq_of_isInventory isInventory_links isInventory_contents ?_)
  cbv

theorem separated_links : linkedTrees.Separated (.ofString "s") (.ofString "t") :=
  separated_of_isInventory isInventory_links find_target_linkedTrees rfl rfl (by cbv)

theorem separated_contents : linkedTrees.Separated (.ofString "p") (.ofString "t") :=
  separated_of_isInventory isInventory_contents find_target_linkedTrees rfl rfl (by cbv)

theorem plainBelow_linkedTrees : (linkedTrees.withDirectory (.ofString "t")).PlainBelow (.ofString "t") :=
  plainBelow_made find_target_linkedTrees rfl

theorem deploy_alike_linkedTrees : linkedTrees.Separated (.ofString "s") (.ofString "t") ∧
    linkedTrees.Separated (.ofString "p") (.ofString "t") ∧
    (linkedTrees.withDirectory (.ofString "t")).PlainBelow (.ofString "t") ∧
    Resolved linkedTrees (.ofString "s") ∧ Resolved linkedTrees (.ofString "p") ∧
    Alike linkedTrees (.ofString "s") linkedTrees (.ofString "p") ∧
    (linkedTrees.deploy .byName (.ofString "s") (.ofString "t")).result = .ok ⟨3, 1⟩ ∧
    linkedTrees.deploy .byName (.ofString "p") (.ofString "t") =
      linkedTrees.deploy .byName (.ofString "s") (.ofString "t") := by
  have hresolved := resolved_of_isInventory isInventory_links
  have hresolved' := resolved_of_isInventory isInventory_contents
  have hsame := deploy_alike linkedTrees .byName .byName (.ofString "s") (.ofString "p") (.ofString "t") separated_links
    separated_contents plainBelow_linkedTrees hresolved hresolved' alike_linkedTrees
  have hresult : (linkedTrees.deploy .byName (.ofString "s") (.ofString "t")).result = .ok ⟨3, 1⟩ := by cbv
  exact ⟨separated_links, separated_contents, plainBelow_linkedTrees, hresolved, hresolved', alike_linkedTrees, hresult,
    hsame.2.1 _ hresult⟩

/-! ## A target that turns out to be the source -/

/-- That links are what they lead to, if some separation of source and target sufficed for it: that a source without links
comes to the same as one that has the same entries, links followed. -/
def SameAsContents (apart : FileSystem → Path → Path → Prop) : Prop :=
  ∀ (files : FileSystem) (order order' : ListingOrder) (source source' target : Path), apart files source target →
    apart files source' target → Resolved files source → Resolved files source' → files.LinkFreeBelow source' →
    (∀ names, files.entryAt (source.joinAll names) = files.entryAt (source'.joinAll names)) →
    ((∃ report, (files.deploy order source target).result = .ok report) ↔
      ∃ report, (files.deploy order' source' target).result = .ok report) ∧
    ∀ report report', (files.deploy order source target).result = .ok report →
      (files.deploy order' source' target).result = .ok report' → report = report' ∧
        (∀ names, (files.deploy order source target).files.entryAt (target.joinAll names) =
          (files.deploy order' source' target).files.entryAt (target.joinAll names)) ∧
        (files.deploy order source target).files.PlainBelow target

/-- A file system with a file at `s/f` and a link to it at `s/l`, and a plain directory `p` that has the same with links
followed. -/
def linkedFile : FileSystem :=
  built do
    let files ← oneFile.makeLink (.ofString "s/l") (.ofString "f")
    let files ← files.writeFile (.ofString "p/f") [0x78]
    files.writeFile (.ofString "p/l") [0x78]

theorem isInventory_linkedFile : isInventory linkedFile (.ofString "s") [[]] = true := by
  cbv

theorem isInventory_plainFiles : isInventory linkedFile (.ofString "p") [[]] = true := by
  cbv

theorem linkFreeBelow_plainFiles : linkedFile.LinkFreeBelow (.ofString "p") := by
  have hfind : linkedFile.find (Path.ofString "p").directory = .ok ⟨[⟨[0x70], by decide⟩],
      .directory 0o755 [(fileName, .file ⟨[0x78], 0o644⟩), (linkName, .file ⟨[0x78], 0o644⟩)], false⟩ := by
    cbv
  exact (plainBelow_of_isPlain hfind rfl).linkFreeBelow

/-- If the target turns out to be the source with the link once its missing part is made, the file to which the link leads is
copied to itself, and emptied. From the other source it gets what it has already. -/
theorem not_sameAsContents :
    ¬ SameAsContents fun files source target => files.SeparatedAtFirst source target ∧ files.PlainBelow target := by
  intro h
  have hmissing : linkedFile.find detour.directory = .error .notFound := by cbv
  have hplain : linkedFile.PlainBelow detour := plainBelow_of_missing hmissing
  have hsep := separatedAtFirst_of_isInventory isInventory_linkedFile hmissing (by cbv)
  have hsep' := separatedAtFirst_of_isInventory isInventory_plainFiles hmissing (by cbv)
  have hentries := entryAt_eq_of_isInventory isInventory_linkedFile isInventory_plainFiles (by cbv)
  obtain ⟨-, hsame⟩ := h linkedFile .byName .byName (.ofString "s") (.ofString "p") detour ⟨hsep, hplain⟩ ⟨hsep', hplain⟩
    (resolved_of_isInventory isInventory_linkedFile) (resolved_of_isInventory isInventory_plainFiles)
    linkFreeBelow_plainFiles hentries
  have hresult : (linkedFile.deploy .byName (.ofString "s") detour).result = .ok ⟨2, 3⟩ := by cbv
  have hresult' : (linkedFile.deploy .byName (.ofString "p") detour).result = .ok ⟨2, 3⟩ := by cbv
  obtain ⟨-, hcontents, -⟩ := hsame _ _ hresult hresult'
  have hempty : (linkedFile.deploy .byName (.ofString "s") detour).files.entryAt (detour.joinAll [fileName]) =
      some (.file ⟨[], 0o644⟩) := by cbv
  have hkept : (linkedFile.deploy .byName (.ofString "p") detour).files.entryAt (detour.joinAll [fileName]) =
      some (.file ⟨[0x78], 0o644⟩) := by cbv
  rw [hcontents, hkept] at hempty
  cases hempty

end Deployment

end ConsoleKit
