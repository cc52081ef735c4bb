import ConsoleKit.Proofs.Deployment.Overwriting
import ConsoleKit.Proofs.Files.Forward
import Mathlib

/-!
# What a deployment writes to

A copy goes to whatever its path in the target leads to, and nothing is known here about what that is: links, dangling
links and files with several names may be anywhere in it. Every file that a deployment changes or creates is one to
which a path of the source leads in the target (`deploy_dataOf?`, `deploy_creates`). As long as no link stands at such
a path, that file has a name inside the target, and the name is a path of the source (`isName_of_unlinked`); a link there
takes the copy to wherever it leads, also to a file that only the destination has (`deploy_overwrites_extra`).
-/

namespace ConsoleKit

open Deployment

namespace FileSystem

open ConsoleKit.Path (Segment along)

variable {files files' final : FileSystem} {source target path : Path} {names : List FileName} {ref : FileRef}
  {data : FileData} {place : Location} {node : Node}

/-- A place in the tree is a name of a regular file. -/
def IsName (files : FileSystem) (place : Location) (ref : FileRef) : Prop :=
  ∃ node data, files.node? place = some node ∧ files.regular? place node = some (ref, data)

/-- Before a deployment, no link is inside its target at a path of the source. Where the target is, and what the source
has, is looked up at the end. -/
def Unlinked (files final : FileSystem) (source target : Path) : Prop :=
  ∀ base names link, final.find target.directory = .ok base → names ≠ [] → final.Leads (source.joinAll names) →
    files.get? (names.reverse ++ base.location) ≠ some (.link link)

/-! ## What is created by writing -/

theorem bare?_setData_eq_none {data' : FileData} (hdata : files.dataOf? ref = some data) (hnone : files.bare? place = none) :
    (files.setData ref data').bare? place = none := by
  cases ref with
  | own location =>
    have hold := dataOf?_own.1 hdata
    have hne : place ≠ location := by
      rintro rfl
      rw [bare?_of_node? hold] at hnone
      cases hnone
    rw [(putAt_setData hold data').bare?_eq, if_neg hne, hnone]
  | shared id => exact hnone

/-- Writing creates at most one thing: a file at a place to which the path leads from then on. -/
theorem store_creates {destination : Destination} (h : files.destination path = .ok destination)
    (hnone : files.bare? place = none) (hsome : (files.store destination data).bare? place = some node) :
    node = .file data ∧ (files.store destination data).ReadsFile path (.own place) data := by
  rcases readsFile_store h data with rfl | ⟨ref, hwritten, rfl | ⟨directory, name, rfl, rfl⟩⟩
  · cases hnone.symm.trans hsome
  · rcases destination_inv h with ⟨_, old, heq, hreads⟩ | ⟨_, _, heq, -⟩ | ⟨heq, -⟩ <;> cases heq
    cases (bare?_setData_eq_none hreads.dataOf? hnone).symm.trans hsome
  · rcases destination_inv h with ⟨_, _, heq, -⟩ | ⟨_, _, heq, hwalk⟩ | ⟨heq, -⟩ <;> cases heq
    rw [(putAt_vacant hwalk data).bare?_eq] at hsome
    split at hsome
    · rename_i hplace
      cases hsome
      exact ⟨rfl, hplace ▸ hwritten⟩
    · cases hnone.symm.trans hsome

/-! ## Names of what a path leads to -/

theorem leads_of_append {front after : List FileName} (hne : front ≠ []) (h : files.Leads (path.joinAll (front ++ after))) :
    files.Leads (path.joinAll front) := by
  by_cases hafter : after = []
  · rwa [hafter, List.append_nil] at h
  · rw [Path.joinAll_append] at h
    obtain ⟨mode, hmode⟩ := stat_of_joinAll (by simp [Path.isEmpty_joinAll path hne]) hafter h
    exact leads_of_stat hmode

/-- A file to which names lead without meeting a link has its name at their place. -/
theorem ReadsFile.isName (hne : names ≠ []) (h : files.ReadsFile (path.joinAll names) ref data) :
    ∃ base, files.find path.directory = .ok base ∧ (files.IsName (names.reverse ++ base.location) ref ∨
      ∃ front name after link, names = front ++ name :: after ∧
        files.node? ((front ++ [name]).reverse ++ base.location) = some (.link link)) := by
  obtain ⟨spot, hfind, hregular⟩ := h
  obtain ⟨base, links, hbase, ⟨mode, entries, hnode⟩, hfollow⟩ := walk_joinAll hne (find_eq_ok_iff.1 hfind)
  refine ⟨base, hbase, ?_⟩
  have hbecomes := find_becomes hbase
  cases hbecomes with
  | removed location mode =>
    -- Nothing is found in a directory that was taken out of the tree.
    obtain ⟨name, after, rfl⟩ := List.exists_cons_of_ne_nil hne
    exact absurd hfollow (not_follow_empty rfl)
  | @live location node _ hlive _ =>
    rcases follow_inv hfollow with hadvance | ⟨_, _, _, _, -, hadvance, -⟩
    · rcases advance_along hlive hadvance with ⟨node', hplace, hfound⟩ | ⟨_, _, -, -, hfound⟩ | ⟨_, _, _, _, _, -, -, -, hfound⟩
      · cases hfound
        exact .inl ⟨node', data, hplace, hregular⟩
      · cases hfound
      · cases hfound
    · rcases advance_along hlive hadvance with ⟨_, -, hlink⟩ | ⟨_, _, -, -, hlink⟩ |
        ⟨front, name, after, _, link, hnames, hplace, -, hlink⟩
      · cases hlink
      · cases hlink
      · exact .inr ⟨front, name, after, link, hnames, by simpa using hplace⟩

end FileSystem

namespace Deployment

open FileSystem

variable {files files' final : FileSystem} {source target : Path} {names : List FileName} {ref : FileRef} {data : FileData}
  {place : Location} {node : Node}

/-! ## What a run creates -/

/-- What is found at a place where nothing was: a directory, or a file to which a path of the source leads in the
target. -/
def Created (files : FileSystem) (source target : Path) (place : Location) (node : Node) : Prop :=
  (∃ mode, node = .directory mode []) ∨
    (∃ data, node = .file data) ∧ ∃ names, files.Overwrites source target names (.own place)

theorem Created.kept {node' : Node} (h : Created files source target place node) (hkept : node.Kept node')
    (hgrows : files.Grows files') : Created files' source target place node' := by
  rcases h with ⟨mode, rfl⟩ | ⟨⟨data, rfl⟩, names, hhit⟩
  · cases hkept
    exact .inl ⟨mode, rfl⟩
  · refine .inr ⟨?_, names, hhit.grows hgrows⟩
    cases hkept with
    | same => exact ⟨data, rfl⟩
    | file _ data' => exact ⟨data', rfl⟩

theorem step_creates (h : Step source target files files') (hnone : files.bare? place = none)
    (hsome : files'.bare? place = some node) : Created files' source target place node := by
  have hgrows := h.grows
  cases h with
  | directory hne hsource hmake =>
    obtain ⟨vacancy, -, -, hput, -⟩ := makeDirectory_spec hmake
    rw [hput.bare?_eq] at hsome
    split at hsome
    · cases hsome
      exact .inl ⟨_, rfl⟩
    · rw [hsome] at hnone
      cases hnone
  | @file names _ hne hcopy =>
    obtain ⟨ref, read, _, hreads, hdestination, rfl⟩ := copyFile_inv hcopy
    obtain ⟨rfl, hwrites⟩ := store_creates hdestination hnone hsome
    obtain ⟨read', hreads'⟩ := hreads.grows hgrows
    exact .inr ⟨⟨_, rfl⟩, names, hne, ⟨ref, read', hreads'⟩, ⟨_, hwrites⟩⟩

/-- The induction is on the run: what one step creates is kept by the next. -/
theorem runs_creates (h : Runs source target files files') (hnone : files.bare? place = none)
    (hsome : files'.bare? place = some node) : Created files' source target place node := by
  induction h generalizing node with
  | refl =>
    rw [hsome] at hnone
    cases hnone
  | @tail middle _ hrun hstep ih =>
    cases hmiddle : middle.bare? place with
    | none => exact step_creates hstep hmiddle hsome
    | some node' =>
      obtain ⟨node'', hnode'', hkept⟩ := hstep.grows.kept place node' hmiddle
      rw [hsome, Option.some.injEq] at hnode''
      subst hnode''
      exact (ih hmiddle).kept hkept hstep.grows

/-- A link was there before, if what is new was created so. -/
theorem link_of_created {link : Path} (hgrows : files.Grows files')
    (hcreated : ∀ node, files.bare? place = none → files'.bare? place = some node → Created files' source target place node)
    (h : files'.bare? place = some (.link link)) : files.bare? place = some (.link link) := by
  cases hbare : files.bare? place with
  | none => rcases hcreated _ hbare h with ⟨_, hnode⟩ | ⟨⟨_, hnode⟩, -⟩ <;> cases hnode
  | some node =>
    obtain ⟨node', hnode', hkept⟩ := hgrows.kept place node hbare
    rw [h, Option.some.injEq] at hnode'
    subst hnode'
    cases hkept
    rfl

/-- A run makes no links. -/
theorem linkFree_of_runs (h : Runs source target files files') (hfree : files.LinkFree place) : files'.LinkFree place := by
  intro names link hne hlink
  have hbare := link_of_created h.grows (fun node => runs_creates h) (bare?_of_node? hlink)
  obtain ⟨node, hnode, hlink'⟩ := Option.map_eq_some_iff.1 hbare
  cases node <;> cases hlink'
  exact hfree names link hne hnode

section Deploy

variable (files : FileSystem) (order : ListingOrder) (source target : Path)

/-- What a deployment creates, whatever it comes to. -/
theorem deploy_creates (hnone : files.bare? place = none)
    (hsome : (files.deploy order source target).files.bare? place = some node) :
    Created (files.deploy order source target).files source target place node := by
  rcases files.deploy_runs order source target with hsame | hrun
  · rw [hsame, hnone] at hsome
    cases hsome
  · cases hmade : (files.withDirectory target).bare? place with
    | none => exact runs_creates hrun hmade hsome
    | some node' =>
      obtain ⟨node'', hnode'', hkept⟩ := hrun.grows.kept place node' hmade
      rw [hsome, Option.some.injEq] at hnode''
      subst hnode''
      rcases (withDirectory_madeAt files target).bare? place with hbare | ⟨-, ⟨mode, hmode⟩, -⟩
      · rw [hmade, hnone] at hbare
        cases hbare
      · rw [hmade, Option.some.injEq] at hmode
        subst hmode
        cases hkept
        exact .inl ⟨mode, rfl⟩

/-- A deployment makes no links. -/
theorem deploy_link {link : Path} (h : (files.deploy order source target).files.bare? place = some (.link link)) :
    files.bare? place = some (.link link) :=
  link_of_created (deploy_grows files order source target) (fun _ => deploy_creates files order source target) h

/-- Whatever a deployment comes to, it has changed only files to which a path of the source leads in the target. -/
theorem deploy_dataOf? (hdata : files.dataOf? ref = some data)
    (hnone : ∀ names, ¬ (files.deploy order source target).files.Overwrites source target names ref) :
    (files.deploy order source target).files.dataOf? ref = some data := by
  rcases files.deploy_runs order source target with hsame | hrun
  · rw [hsame]
    exact hdata
  · exact runs_dataOf? hrun ((withDirectory_madeAt files target).dataOf? hdata) hnone

/-- If no link is in the way, what is written to has a name inside the target that is a path of the source. -/
theorem isName_of_unlinked (hunlinked : Unlinked files (files.deploy order source target).files source target)
    (hhit : (files.deploy order source target).files.Overwrites source target names ref) :
    ∃ base, (files.deploy order source target).files.find target.directory = .ok base ∧
      (files.deploy order source target).files.IsName (names.reverse ++ base.location) ref := by
  obtain ⟨data, hwrites⟩ := hhit.writes
  obtain ⟨base, hbase, hname | ⟨front, name, after, link, rfl, hlink⟩⟩ := hwrites.isName hhit.ne_nil
  · exact ⟨base, hbase, hname⟩
  · obtain ⟨ref', data', spot, hfind, -⟩ := hhit.reads
    have hbehind : (files.deploy order source target).files.Leads (source.joinAll (front ++ [name] ++ after)) :=
      ⟨spot, by simpa using hfind⟩
    have hleads := leads_of_append (by simp) hbehind
    have hbefore := get?_eq_link_iff.2 (deploy_link files order source target (bare?_of_node? hlink))
    exact absurd hbefore (hunlinked base _ link hbase (by simp) hleads)

end Deploy

/-- **What a deployment writes to**, whatever it comes to and whatever is in its target. A regular file that was there
keeps its data unless a path of the source leads to it in the target, and a regular file that is new is one to which such
a path leads. If no link is inside the target at a path of the source, each of these files has a name inside the target,
and the name is a path of the source. -/
theorem deploy_contained (files : FileSystem) (order : ListingOrder) (source target : Path) :
    let final := (files.deploy order source target).files
    (∀ ref data, files.dataOf? ref = some data →
      final.dataOf? ref = some data ∨ ∃ names, final.Overwrites source target names ref) ∧
    (∀ place data, files.get? place = none → final.get? place = some (.file data) →
      ∃ names, final.Overwrites source target names (.own place)) ∧
    (files.Unlinked final source target → ∀ names ref, final.Overwrites source target names ref →
      ∃ base, final.find target.directory = .ok base ∧ final.IsName (names.reverse ++ base.location) ref) := by
  refine ⟨fun ref data hdata => ?_, fun place data hnone hsome => ?_,
    fun hunlinked names ref hhit => isName_of_unlinked files order source target hunlinked hhit⟩
  · by_cases hhit : ∃ names, (files.deploy order source target).files.Overwrites source target names ref
    · exact .inr hhit
    · exact .inl (deploy_dataOf? files order source target hdata fun names h => hhit ⟨names, h⟩)
  · obtain ⟨node, hnode, hentry⟩ := Option.map_eq_some_iff.1 hsome
    rcases deploy_creates files order source target (get?_eq_none_iff.1 hnone) (bare?_of_node? hnode) with
      ⟨mode, hbare⟩ | ⟨-, hhit⟩
    · cases node <;> cases hbare
      cases hentry
    · exact hhit

end Deployment

namespace FileSystem

/-! ## Links that lead further down -/

/-- Every link at or below a place is spelled so that it leads further down. -/
def LinksInward (files : FileSystem) (location : Location) : Prop :=
  ∀ names link, files.node? (names ++ location) = some (.link link) → link.isAbsolute = false ∧ .parent ∉ link.segments

/-- Whether a node is no link, or one that is spelled so. -/
def isInward : Node → Bool
  | .link link => !link.isAbsolute && link.segments.all (· != .parent)
  | _ => true

theorem linksInward_of_isInward {files : FileSystem} {location : Location} {root : Node}
    (hroot : files.node? location = some root) (h : (root.nodes location).all (fun entry => isInward entry.2) = true) :
    files.LinksInward location := by
  intro names link hlink
  rw [node?_append, hroot, Option.bind_some] at hlink
  have hinward : isInward (.link link) = true := List.all_eq_true.1 h _ (Node.mem_nodes_of_at? location hlink)
  simp only [isInward, Bool.and_eq_true, Bool.not_eq_true', List.all_eq_true, bne_iff_ne, ne_eq] at hinward
  exact ⟨hinward.1, fun hmem => hinward.2 _ hmem rfl⟩

/-- What a stretch comes to that has not left a place: it ends there or further down, or at a link there, from which it
does not go up again. -/
inductive Stretch.Within (files : FileSystem) (location : Location) : Stretch → Prop where
  | found {spot : Spot} (hin : location <:+ spot.location) : Within files location (.arrived (.found spot))
  | vacant (directory : Location) (name : FileName) : Within files location (.arrived (.vacant directory name))
  | link {directory : Spot} {link : Path} {rest : List Path.Segment} {name : FileName}
      (hin : location <:+ directory.location) (hself : Spot.Becomes files files directory directory)
      (hlink : files.node? (name :: directory.location) = some (.link link)) (hforward : .parent ∉ rest) :
      Within files location (.link directory link rest)

variable {files : FileSystem} {path : Path} {location : Location} {spot found base : Spot}
  {segments : List Path.Segment}

theorem advance_within {stretch : Stretch} (hin : location <:+ spot.location) (hspot : Spot.Becomes files files spot spot)
    (hforward : .parent ∉ segments) (h : files.advance .find spot segments = .ok stretch) :
    Stretch.Within files location stretch := by
  induction segments generalizing spot with
  | nil =>
    cases h
    exact .found hin
  | cons segment rest ih =>
    have hrest : .parent ∉ rest := fun hmem => hforward (.tail _ hmem)
    rcases advance_inv h with ⟨-, ⟨next, hpasses, honward⟩ |
      ⟨place, mode, entries, piece, name, rfl, rfl, -, ⟨-, -, rfl⟩ | ⟨link, hlookup, rfl⟩⟩⟩
    · obtain ⟨_, _, hnext⟩ := hpasses.becomes (Grows.refl files) hspot
      refine ih ?_ hnext.self hrest honward
      cases hpasses with
      | stay => exact hin
      | parent => exact absurd (.head _) hforward
      | entry => exact hin.trans (List.suffix_cons _ _)
    · exact .vacant place name
    · have hlink : files.node? (name :: place) = some (.link link) := by
        rw [node?_cons, hspot.node? rfl]
        exact hlookup
      exact .link hin hspot hlink hrest

/-- A walk without `..` leads further down where all links do. The induction is on the number of links followed. -/
theorem suffix_of_follow {links : Nat} (hinward : files.LinksInward location) (hin : location <:+ spot.location)
    (hspot : Spot.Becomes files files spot spot) (hforward : .parent ∉ segments)
    (h : files.follow .find links spot segments = .ok (.found found)) : location <:+ found.location := by
  induction links generalizing spot segments with
  | zero =>
    rcases follow_inv h with hadvance | ⟨_, _, _, _, hlinks, -⟩
    · cases advance_within hin hspot hforward hadvance with
      | found hin' => exact hin'
    · cases hlinks
  | succ links ih =>
    rcases follow_inv h with hadvance | ⟨_, directory, link, rest, hlinks, hadvance, honward⟩
    · cases advance_within hin hspot hforward hadvance with
      | found hin' => exact hin'
    · cases hlinks
      cases advance_within hin hspot hforward hadvance with
      | @link _ _ _ name hdirectory hself hlink hrest =>
        obtain ⟨names, hnames⟩ := hdirectory
        rw [← hnames] at hlink
        obtain ⟨hrelative, hsegments⟩ := hinward (name :: names) link hlink
        rw [startSpot, hrelative, if_neg Bool.false_ne_true] at honward
        exact ih ⟨names, hnames⟩ hself (by simp [hsegments, hrest]) honward

/-- A path reaches only what is below its directory if all links there lead further down. -/
theorem suffix_of_reaches_inward (hbase : files.find path.directory = .ok base) (hinward : files.LinksInward base.location)
    (h : files.Reaches path spot) : base.location <:+ spot.location := by
  rcases reaches_inv h with hfind | ⟨names, hne, hfind⟩
  · rw [hbase, Except.ok.injEq] at hfind
    exact hfind ▸ List.suffix_rfl
  · obtain ⟨links, hfollow⟩ := follow_of_find_joinAll hbase hne hfind
    exact suffix_of_follow hinward List.suffix_rfl (find_becomes hbase) (by simp [Path.along]) hfollow

end FileSystem

namespace Deployment

open FileSystem

/-! ## A link to a file that only the destination has -/

/-- A file system with a file at `s/f`, another one at `t/x`, and a link to it at `t/f`. -/
def linkInTarget : FileSystem :=
  built do
    let files ← oneFile.writeFile (.ofString "t/x") [0x79]
    files.makeLink (.ofString "t/f") (.ofString "x")

/-- The target in `linkInTarget`. -/
def linkingTarget : Node :=
  .directory 0o755 [(fileName, .link (.ofString "x")), (firstName, .file ⟨[0x79], 0o644⟩)]

theorem find_target_linkInTarget : linkInTarget.find (.ofString "t") = .ok ⟨[targetName], linkingTarget, false⟩ := by
  cbv

theorem linksInward_linkInTarget : linkInTarget.LinksInward [targetName] := by
  have hroot : linkInTarget.node? [targetName] = some linkingTarget := by cbv
  have hnodes : (linkingTarget.nodes [targetName]).all (fun entry => isInward entry.2) = true := by cbv
  exact linksInward_of_isInward hroot hnodes

theorem separatedAtFirst_linkInTarget : linkInTarget.SeparatedAtFirst (.ofString "s") (.ofString "t") := by
  have hsource : linkInTarget.find (Path.ofString "s").directory =
      .ok ⟨[directoryName], .directory 0o755 [(fileName, .file ⟨[0x78], 0o644⟩)], false⟩ := by
    cbv
  have htarget : linkInTarget.find (Path.ofString "t").directory = .ok ⟨[targetName], linkingTarget, false⟩ := by cbv
  have hnowhere := linksNowhere_of_isPlain ((find_becomes hsource).node? rfl) rfl
  refine ⟨?_, fun a _ _ => not_receives_of_find find_target_linkInTarget a.location⟩
  rintro a b hreached hreached' (⟨hplace, -⟩ | ⟨id, hid, -⟩)
  · have hsuffix := suffix_of_reaches hsource rfl hnowhere hreached
    have hsuffix' := suffix_of_reaches_inward htarget linksInward_linkInTarget hreached'
    rw [← hplace] at hsuffix'
    rcases List.suffix_or_suffix_of_suffix hsuffix hsuffix' with hin | hin
    · exact directoryName_not_suffix hin
    · exact targetName_not_suffix hin
  · exact not_shared_of_reaches hsource rfl hreached id hid

/-- A copy goes through the link, to a file that has no name at a path of the source. Where there is no link, it goes to
the file that has the name. -/
theorem deploy_contained_linkInTarget :
    (∃ names, (linkInTarget.deploy .byName (.ofString "s") (.ofString "t")).files.Overwrites (.ofString "s") (.ofString "t")
      names (.own [firstName, targetName])) ∧
    ∃ base, (twoDirectories.deploy .byName (.ofString "s") (.ofString "t")).files.find (Path.ofString "t").directory =
        .ok base ∧
      (twoDirectories.deploy .byName (.ofString "s") (.ofString "t")).files.IsName (fileName :: base.location)
        (.own [fileName, targetName]) := by
  obtain ⟨hchanged, -, -⟩ := deploy_contained linkInTarget .byName (.ofString "s") (.ofString "t")
  obtain ⟨-, -, hnamed⟩ := deploy_contained twoDirectories .byName (.ofString "s") (.ofString "t")
  constructor
  · have hafter : (linkInTarget.deploy .byName (.ofString "s") (.ofString "t")).files.dataOf?
        (.own [firstName, targetName]) = some ⟨[0x78], 0o644⟩ := by
      cbv
    rcases hchanged (.own [firstName, targetName]) ⟨[0x79], 0o644⟩ (by cbv) with hsame | hhit
    · rw [hafter] at hsame
      cases hsame
    · exact hhit
  · have hunlinked : twoDirectories.Unlinked (twoDirectories.deploy .byName (.ofString "s") (.ofString "t")).files
        (.ofString "s") (.ofString "t") := by
      intro base names link _ _ _ hlink
      obtain ⟨node, hnode, hentry⟩ := Option.map_eq_some_iff.1 hlink
      have hplain : twoDirectories.root.isPlain = true := by cbv
      have hbelow := Node.isPlain_at? hplain hnode
      cases node <;> cases hentry
      cases hbelow
    exact hnamed hunlinked [fileName] (.own [fileName, targetName])
      ⟨by simp, ⟨.own [fileName, directoryName], ⟨[0x78], 0o644⟩, _, rfl, rfl⟩, ⟨⟨[0x78], 0o644⟩, _, rfl, rfl⟩⟩

/-- What is only in the destination is not always left alone: source and target are separated, the source has nothing at
`x`, and yet the file at `t/x` gets the content of `s/f`. -/
theorem deploy_overwrites_extra : ¬ ∀ (files : FileSystem) (order : ListingOrder) (source target : Path),
    files.SeparatedAtFirst source target → ∀ names data,
      ¬ (files.deploy order source target).files.Leads (source.joinAll names) →
      files.stat (target.joinAll names) = .ok (.file data) →
        (files.deploy order source target).files.stat (target.joinAll names) = .ok (.file data) := by
  intro h
  have hmissing : ¬ (linkInTarget.deploy .byName (.ofString "s") (.ofString "t")).files.Leads
      ((Path.ofString "s").joinAll [firstName]) := by
    have hnone : (linkInTarget.deploy .byName (.ofString "s") (.ofString "t")).files.contains
        ((Path.ofString "s").joinAll [firstName]) = false := by
      cbv
    rw [← contains_eq_true_iff, hnone]
    exact Bool.false_ne_true
  have hbefore : linkInTarget.stat ((Path.ofString "t").joinAll [firstName]) = .ok (.file ⟨[0x79], 0o644⟩) := by cbv
  have hafter : (linkInTarget.deploy .byName (.ofString "s") (.ofString "t")).files.stat
      ((Path.ofString "t").joinAll [firstName]) = .ok (.file ⟨[0x78], 0o644⟩) := by
    cbv
  have hsame := h linkInTarget .byName (.ofString "s") (.ofString "t") separatedAtFirst_linkInTarget [firstName] _ hmissing
    hbefore
  rw [hafter] at hsame
  cases hsame

end Deployment

end ConsoleKit
