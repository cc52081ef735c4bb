import ConsoleKit.Proofs.Deployment.Likeness
import Mathlib

/-!
# The order of listing does not matter

Two deployments of a source into a target that it is separated from come to the same, in whatever order each lists the
directories (`deploy_order_independent`): the same entries are handled, none of them is in the way of another, and what comes
to each place is determined by the source. It takes one more condition (`Settled`), because a link of the source that leads
nowhere may come to lead into the target.
-/

namespace ConsoleKit

open FileSystem

namespace Deployment

variable {files final : FileSystem} {order : ListingOrder} {source target : Path}

/-- If a deployment succeeds, it comes to the same in every other order. -/
theorem deploy_eq_of_ok (order' : ListingOrder) {report : Report} (hsep : files.Separated source target)
    (hplain : (files.withDirectory target).PlainBelow target)
    (hsettled : Settled source files (files.deploy order source target).files)
    (h : (files.deploy order source target).result = .ok report) :
    files.deploy order' source target = files.deploy order source target := by
  have hgoes := deploy_goes files order source target
  have hgoes' := deploy_goes files order' source target
  generalize files.deploy order source target = outcome at *
  generalize files.deploy order' source target = outcome' at *
  cases hgoes with
  | noSource _ => cases h
  | noTarget _ _ => cases h
  | stuck _ _ _ _ => cases h
  | @done trace progress hsource hprovide hhandles hcomplete =>
    have hfinishes : Finishes files source target trace progress :=
      ⟨⟨hsep, hplain, hhandles.runs, hsettled⟩, hsource, hhandles, hcomplete⟩
    cases hgoes' with
    | noSource hnot =>
      rw [hsource] at hnot
      cases hnot
    | noTarget _ hfail =>
      rw [hprovide] at hfail
      cases hfail
    | stuck _ _ hhandles' hstuck => exact absurd hstuck (hfinishes.not_stuck (hfinishes.underway_of_handles hhandles'))
    | @done trace' progress' _ _ hhandles' hcomplete' =>
      have hfinishes' : Finishes files source target trace' progress' :=
        ⟨hfinishes.underway_of_handles hhandles', hsource, hhandles', hcomplete'⟩
      rw [hfinishes'.files_eq hfinishes (.refl files source), hfinishes'.report_eq hfinishes (.refl files source)]

/-- A deployment succeeds in one order if it does in another, and then comes to the same. -/
theorem deploy_order_independent (files : FileSystem) (order order' : ListingOrder) (source target : Path)
    (hsep : files.Separated source target) (hplain : (files.withDirectory target).PlainBelow target)
    (hsettled : ∀ report, (files.deploy order source target).result = .ok report →
      Settled source files (files.deploy order source target).files)
    (hsettled' : ∀ report, (files.deploy order' source target).result = .ok report →
      Settled source files (files.deploy order' source target).files) :
    ((∃ report, (files.deploy order source target).result = .ok report) ↔
      ∃ report, (files.deploy order' source target).result = .ok report) ∧
    ∀ report, (files.deploy order source target).result = .ok report →
      files.deploy order' source target = files.deploy order source target := by
  have hsame : ∀ report, (files.deploy order source target).result = .ok report →
      files.deploy order' source target = files.deploy order source target :=
    fun report hreport => deploy_eq_of_ok order' hsep hplain (hsettled report hreport) hreport
  refine ⟨⟨?_, ?_⟩, hsame⟩
  · rintro ⟨report, hreport⟩
    exact ⟨report, hsame report hreport ▸ hreport⟩
  · rintro ⟨report, hreport⟩
    have hback := deploy_eq_of_ok order hsep hplain (hsettled' report hreport) hreport
    exact ⟨report, hback ▸ hreport⟩

/-- A source without links is settled: nothing has come to the directories in it. -/
theorem settled_of_linkFree (hsep : files.Separated source target) (hplain : (files.withDirectory target).PlainBelow target)
    (hfree : files.LinkFreeBelow source) (hsource : files.Leads source)
    (hrun : Runs source target (files.withDirectory target) final) : Settled source files final := by
  intro names hleads
  induction names using List.reverseRecOn with
  | nil => exact hsource
  | append_singleton front name ih =>
    obtain ⟨arrival, hfinal⟩ := hleads
    have hcheck := (walk_eq_ok_iff.1 (find_eq_ok_iff.1 hfinal)).1
    obtain ⟨start, hstart⟩ := hsource
    have hempty := not_isEmpty_of_checkPath (walk_eq_ok_iff.1 (find_eq_ok_iff.1 hstart)).1
    have hentry : final.Leads ((source.joinAll front).joinAll [name]) :=
      ⟨arrival, Path.joinAll_append source front [name] ▸ hfinal⟩
    obtain ⟨mode, hmode⟩ := stat_of_joinAll (Path.not_isEmpty_joinAll hempty front) (by simp) hentry
    obtain ⟨spot, hfind⟩ := ih (leads_of_stat hmode)
    obtain ⟨listed, hlist⟩ := list_of_isDirectory (isDirectory_iff.2 ⟨mode, hmode⟩)
    have hconfined := confined_of_runs hplain hrun
    obtain ⟨hlive, hthere⟩ := (mem_listed_iff hsep hplain hconfined hlist hfind).1 (mem_list hentry hlist)
    obtain ⟨base, hbase, hbaselive, hplace⟩ := find_joinAll_place hfree hlive hfind
    rw [ne_eq, bare?_eq_none_iff, ← ne_eq, Option.ne_none_iff_exists'] at hthere
    obtain ⟨node, hnode⟩ := hthere
    rw [hplace] at hnode
    exact ⟨_, find_joinAll_of_node? hfree hbase hbaselive hcheck (by simp) (by simpa using hnode)⟩

/-- A deployment leaves a source without links settled. -/
theorem deploy_settled (order : ListingOrder) (hsep : files.Separated source target)
    (hplain : (files.withDirectory target).PlainBelow target) (hfree : files.LinkFreeBelow source) :
    Settled source files (files.deploy order source target).files := by
  have hgoes := deploy_goes files order source target
  generalize files.deploy order source target = outcome at hgoes
  cases hgoes with
  | noSource _ => exact fun _ hleads => hleads
  | noTarget hsource _ => exact settled_of_linkFree hsep hplain hfree (leads_of_isDirectory hsource) .refl
  | stuck hsource _ hhandles _ => exact settled_of_linkFree hsep hplain hfree (leads_of_isDirectory hsource) hhandles.runs
  | done hsource _ hhandles _ => exact settled_of_linkFree hsep hplain hfree (leads_of_isDirectory hsource) hhandles.runs

/-- Every directory is listed in descending order of the names. -/
def ListingOrder.backwards : ListingOrder :=
  ⟨fun _ names => names.reverse, fun _ names => names.reverse_perm⟩

/-- A file system with two files, at `s/x/f` and `s/y/f`, and an empty directory `t`. -/
def branching : FileSystem :=
  built do
    let files ← FileSystem.empty.writeFile (.ofString "s/x/f") [0x78]
    let files ← files.writeFile (.ofString "s/y/f") [0x79]
    files.ensurePath (.ofString "t")

/-- A directory with one file, which has one byte. -/
def branch (byte : UInt8) : Node :=
  .directory 0o755 [(fileName, .file ⟨[byte], 0o644⟩)]

/-- The source in `branching`. -/
def branchingSource : Node :=
  .directory 0o755 [(firstName, branch 0x78), (secondName, branch 0x79)]

theorem find_source_branching : branching.find (Path.ofString "s").directory =
    .ok ⟨[directoryName], branchingSource, false⟩ := by
  cbv

theorem find_target_branching : branching.find (.ofString "t") = .ok ⟨[targetName], .directory 0o755 [], false⟩ := by
  cbv

theorem separated_branching : branching.Separated (.ofString "s") (.ofString "t") :=
  (separatedAtFirst_s_t find_source_branching find_target_branching rfl rfl).separated find_target_branching

theorem plainBelow_branching : (branching.withDirectory (.ofString "t")).PlainBelow (.ofString "t") :=
  plainBelow_made find_target_branching rfl

theorem deploy_backwards_branching : branching.Separated (.ofString "s") (.ofString "t") ∧
    (branching.withDirectory (.ofString "t")).PlainBelow (.ofString "t") ∧
    (branching.deploy .byName (.ofString "s") (.ofString "t")).result = .ok ⟨2, 2⟩ ∧
    branching.deploy .backwards (.ofString "s") (.ofString "t") = branching.deploy .byName (.ofString "s") (.ofString "t") := by
  have hfree := (plainBelow_of_isPlain find_source_branching rfl).linkFreeBelow
  have hsettled := fun order => deploy_settled order separated_branching plainBelow_branching hfree
  have hsame := deploy_order_independent branching .byName .backwards (.ofString "s") (.ofString "t") separated_branching
    plainBelow_branching (fun _ _ => hsettled _) (fun _ _ => hsettled _)
  have hresult : (branching.deploy .byName (.ofString "s") (.ofString "t")).result = .ok ⟨2, 2⟩ := by cbv
  exact ⟨separated_branching, plainBelow_branching, hresult, hsame.2 _ hresult⟩

/-! ## Why the source has to be settled -/

/-- That the order does not matter, if some separation of source and target sufficed for it. -/
def OrderIndependent (apart : FileSystem → Path → Path → Prop) : Prop :=
  ∀ (files : FileSystem) (order order' : ListingOrder) (source target : Path), apart files source target →
    ((∃ report, (files.deploy order source target).result = .ok report) ↔
      ∃ report, (files.deploy order' source target).result = .ok report) ∧
    ∀ report report', (files.deploy order source target).result = .ok report →
      (files.deploy order' source target).result = .ok report' → report = report' ∧
        ∀ place, (files.deploy order source target).files.get? place = (files.deploy order' source target).files.get? place

/-- A file system with a link at `s/x/l` to the copy that is to be made of `s/y/q`. -/
def forwardLink : FileSystem :=
  built do
    let files ← FileSystem.empty.writeFile (.ofString "s/y/q") [0x78]
    let files ← files.makeLink (.ofString "s/x/l") (.ofString "../../t/y/q")
    files.ensurePath (.ofString "t")

/-- The source in `forwardLink`. -/
def forwardSource : Node :=
  .directory 0o755 [(firstName, .directory 0o755 [(linkName, .link (.ofString "../../t/y/q"))]),
    (secondName, .directory 0o755 [(⟨[0x71], by decide⟩, .file ⟨[0x78], 0o644⟩)])]

theorem find_target_forwardLink : forwardLink.find (.ofString "t") = .ok ⟨[targetName], .directory 0o755 [], false⟩ := by
  cbv

theorem linksNowhere_forwardLink : forwardLink.LinksNowhere [directoryName] := by
  have hnode : forwardLink.node? [directoryName] = some forwardSource := by cbv
  have hdead : (forwardSource.nodes [directoryName]).all (fun entry => forwardLink.isDeadEnd entry.1 entry.2) = true := by
    cbv
  exact linksNowhere_of_isDeadEnd hnode hdead

theorem separated_forwardLink : forwardLink.Separated (.ofString "s") (.ofString "t") := by
  have hsource : forwardLink.find (Path.ofString "s").directory = .ok ⟨[directoryName], forwardSource, false⟩ := by cbv
  have hapart := separatedAtFirst_of_linksNowhere hsource find_target_forwardLink rfl rfl linksNowhere_forwardLink rfl
    directoryName_not_suffix targetName_not_suffix
  exact hapart.separated find_target_forwardLink

theorem plainBelow_forwardLink : (forwardLink.withDirectory (.ofString "t")).PlainBelow (.ofString "t") :=
  plainBelow_made find_target_forwardLink rfl

/-- A file system with two files, at `s/t/p/f` and `s/t/t/p/f`. -/
def nested : FileSystem :=
  built do
    let files ← FileSystem.empty.writeFile (.ofString "s/t/p/f") [0x78]
    files.writeFile (.ofString "s/t/t/p/f") [0x79]

/-- The source in `nested`. -/
def nestedSource : Node :=
  .directory 0o755 [(⟨[0x70], by decide⟩, branch 0x78),
    (targetName, .directory 0o755 [(⟨[0x70], by decide⟩, branch 0x79)])]

theorem not_find_detour_nested : ∀ base, nested.find detour.directory ≠ .ok base := by
  have hmissing : nested.find detour.directory = .error .notFound := by cbv
  intro base hbase
  rw [hmissing] at hbase
  cases hbase

theorem separatedAtFirst_nested : nested.SeparatedAtFirst (.ofString "s/t") detour := by
  have hsource : nested.find (Path.ofString "s/t").directory = .ok ⟨[targetName, directoryName], nestedSource, false⟩ := by
    cbv
  have hclear : nested.clearOf [targetName, directoryName] detour = true := by cbv
  exact separatedAtFirst_of_unmade hsource rfl rfl (not_suffix_of_clearOf hclear) not_find_detour_nested

/-- The order matters if a link of the source leads to what is still to be copied; and if the target turns out to be around
the source once its missing part is made. -/
theorem not_orderIndependent :
    (¬ OrderIndependent fun files source target => files.Separated source target ∧
      (files.withDirectory target).PlainBelow target) ∧
    ¬ OrderIndependent fun files source target => files.SeparatedAtFirst source target ∧ files.PlainBelow target := by
  constructor
  · intro h
    obtain ⟨hiff, -⟩ := h forwardLink .byName .backwards (.ofString "s") (.ofString "t")
      ⟨separated_forwardLink, plainBelow_forwardLink⟩
    have hresult : (forwardLink.deploy .byName (.ofString "s") (.ofString "t")).result = .ok ⟨2, 2⟩ := by cbv
    have hfailure : (forwardLink.deploy .backwards (.ofString "s") (.ofString "t")).result =
        .error (.call .stat (.ofString "s/x/l") .notFound) := by cbv
    obtain ⟨report, hreport⟩ := hiff.1 ⟨_, hresult⟩
    rw [hfailure] at hreport
    cases hreport
  · intro h
    obtain ⟨-, hsame⟩ := h nested .byName .backwards (.ofString "s/t") detour
      ⟨separatedAtFirst_nested, fun base hbase => absurd hbase (not_find_detour_nested base)⟩
    have hresult : (nested.deploy .byName (.ofString "s/t") detour).result = .ok ⟨2, 4⟩ := by cbv
    have hresult' : (nested.deploy .backwards (.ofString "s/t") detour).result = .ok ⟨2, 4⟩ := by cbv
    obtain ⟨-, hplaces⟩ := hsame _ _ hresult hresult'
    have hnew : (nested.deploy .byName (.ofString "s/t") detour).files.get? [fileName, ⟨[0x70], by decide⟩, directoryName] =
        some (.file ⟨[0x79], 0o644⟩) := by cbv
    have hnew' : (nested.deploy .backwards (.ofString "s/t") detour).files.get?
        [fileName, ⟨[0x70], by decide⟩, directoryName] = some (.file ⟨[0x78], 0o644⟩) := by cbv
    rw [hplaces, hnew'] at hnew
    cases hnew

end Deployment

end ConsoleKit
