import ConsoleKit.Files.Setup
import ConsoleKit.Proofs.Deployment.Confinement

/-!
# Plain file systems

In a file system without links and without files with several names, which can be computed (`Node.isPlain`), a path that
is extended leads further down (`suffix_of_reaches`, which also allows for links that lead nowhere). Two directories of
which neither is in the other are separated there (`separatedAtFirst_of_isPlain`).
-/

namespace ConsoleKit

mutual

/-- Whether no link and no file with several names is in a tree. -/
def Node.isPlain : Node → Bool
  | .directory _ entries => Node.arePlain entries
  | .file _ => true
  | .device => true
  | .shared _ => false
  | .link _ => false

/-- Whether no link and no file with several names is in any of the trees of a list of entries. -/
def Node.arePlain : List (FileName × Node) → Bool
  | [] => true
  | (_, node) :: entries => node.isPlain && Node.arePlain entries

end

theorem Node.isPlain_of_lookup {name : FileName} {node : Node} {entries : List (FileName × Node)}
    (h : Node.arePlain entries) (hlookup : entries.lookup name = some node) : node.isPlain := by
  induction entries with
  | nil => cases hlookup
  | cons head entries ih =>
    obtain ⟨key, value⟩ := head
    unfold Node.arePlain at h
    rw [Bool.and_eq_true] at h
    rw [List.lookup_cons] at hlookup
    split at hlookup
    · cases hlookup
      exact h.1
    · exact ih h.2 hlookup

theorem Node.isPlain_at? {root node : Node} {place : Location} (h : root.isPlain) (hnode : root.at? place = some node) :
    node.isPlain := by
  induction place generalizing node with
  | nil =>
    cases hnode
    exact h
  | cons name parent ih =>
    rw [Node.at?_cons] at hnode
    obtain ⟨full, hfull, hchild⟩ := Option.bind_eq_some_iff.1 hnode
    have hplain := ih hfull
    cases full with
    | directory mode entries =>
      unfold Node.isPlain at hplain
      exact Node.isPlain_of_lookup hplain hchild
    | _ => cases hchild

mutual

/-- All nodes of a tree at a place, each with its own place. -/
def Node.nodes (location : Location) : Node → List (Location × Node)
  | .directory mode entries => (location, .directory mode entries) :: Node.nodesAmong location entries
  | node => [(location, node)]

/-- All nodes of the trees of a list of entries, for a directory at a place, each with its own place. -/
def Node.nodesAmong (location : Location) : List (FileName × Node) → List (Location × Node)
  | [] => []
  | (name, node) :: entries => node.nodes (name :: location) ++ Node.nodesAmong location entries

end

theorem Node.mem_nodes (location : Location) (node : Node) : (location, node) ∈ node.nodes location := by
  cases node <;> exact List.mem_cons_self

theorem Node.nodes_of_lookup {location : Location} {name : FileName} {node : Node} {entries : List (FileName × Node)}
    (h : entries.lookup name = some node) : node.nodes (name :: location) ⊆ Node.nodesAmong location entries := by
  induction entries with
  | nil => cases h
  | cons head entries ih =>
    obtain ⟨key, value⟩ := head
    unfold Node.nodesAmong
    rw [List.lookup_cons] at h
    split at h
    · rename_i hkey
      cases h
      rw [eq_of_beq hkey]
      exact List.subset_append_left _ _
    · exact List.Subset.trans (ih h) (List.subset_append_right _ _)

theorem Node.nodes_of_at? {root node : Node} {location place : Location} (h : root.at? place = some node) :
    node.nodes (place ++ location) ⊆ root.nodes location := by
  induction place generalizing node with
  | nil =>
    cases h
    exact List.Subset.refl _
  | cons name parent ih =>
    rw [Node.at?_cons] at h
    obtain ⟨full, hfull, hchild⟩ := Option.bind_eq_some_iff.1 h
    cases full with
    | directory mode entries =>
      have hentries : Node.nodesAmong (parent ++ location) entries ⊆ root.nodes location :=
        List.Subset.trans (List.subset_cons_self _ _) (ih hfull)
      exact List.Subset.trans (Node.nodes_of_lookup hchild) hentries
    | _ => cases hchild

/-- What is found below a node is among its nodes. -/
theorem Node.mem_nodes_of_at? {root node : Node} {place : Location} (location : Location) (h : root.at? place = some node) :
    (place ++ location, node) ∈ root.nodes location :=
  Node.nodes_of_at? h (Node.mem_nodes _ node)

namespace FileSystem

open Deployment

variable {files : FileSystem} {path source target : Path} {spot base : Spot}

theorem isPlain_below {location : Location} {root node : Node} (h : root.isPlain) (hroot : files.node? location = some root)
    {names : List FileName} (hnode : files.node? (names ++ location) = some node) : node.isPlain := by
  rw [node?_append, hroot, Option.bind_some] at hnode
  exact Node.isPlain_at? h hnode

theorem plainBelow_of_isPlain (hbase : files.find path.directory = .ok base) (h : base.node.isPlain) :
    files.PlainBelow path := by
  intro base' hbase' hlive names node hne hnode
  rw [hbase, Except.ok.injEq] at hbase'
  subst hbase'
  have hplain := isPlain_below h ((find_becomes hbase).node? hlive) hnode
  refine ⟨?_, ?_⟩
  · intro target heq
    subst heq
    cases hplain
  · intro id heq
    subst heq
    cases hplain

/-- Nothing is below a path that leads nowhere. -/
theorem plainBelow_of_missing {error : SystemError} (h : files.find path.directory = .error error) :
    files.PlainBelow path := by
  intro base hbase
  rw [h] at hbase
  cases hbase

/-- A plain target that is there is plain once its missing part is made: there is no such part. -/
theorem plainBelow_made (htarget : files.find target = .ok base) (h : base.node.isPlain) :
    (files.withDirectory target).PlainBelow target := by
  have hsame : files.withDirectory target = files := makeDirectories_of_find htarget _
  rw [hsame]
  exact plainBelow_of_isPlain ((directory_of_find htarget).symm ▸ htarget) h

/-- What a path reaches is the directory of the path, or is found by a walk along names from there. -/
theorem reaches_inv (h : files.Reaches path spot) : files.find path.directory = .ok spot ∨
    ∃ names, names ≠ [] ∧ files.find (path.joinAll names) = .ok spot := by
  obtain ⟨names, hfind⟩ := h
  by_cases hne : names = []
  · subst hne
    exact .inl hfind
  · rw [Path.directory, if_neg (by simp [Path.isEmpty_joinAll path hne])] at hfind
    exact .inr ⟨names, hne, hfind⟩

theorem find_directory_of_reaches (h : files.Reaches path spot) : ∃ base, files.find path.directory = .ok base := by
  rcases reaches_inv h with hfind | ⟨names, hne, hfind⟩
  · exact ⟨spot, hfind⟩
  · obtain ⟨base, _, hbase, -⟩ := walk_joinAll hne (find_eq_ok_iff.1 hfind)
    exact ⟨base, hbase⟩

/-- No link below a place leads anywhere. -/
def LinksNowhere (files : FileSystem) (location : Location) : Prop :=
  ∀ name names target directory, files.node? (name :: names ++ location) = some (.link target) →
    files.node? (names ++ location) = some directory → ∀ links after spot,
      files.follow .find links (files.startSpot ⟨names ++ location, directory, false⟩ target) (target.segments ++ after) ≠
        .ok (.found spot)

/-- Whether a link at a place leads nowhere, without another link on its way. -/
def isDeadEnd (files : FileSystem) (place : Location) : Node → Bool
  | .link target =>
    match files.node? place.tail with
    | none => true
    | some directory =>
      match files.advance .find (files.startSpot ⟨place.tail, directory, false⟩ target) target.segments with
      | .ok (.arrived (.vacant _ _)) => true
      | .error _ => true
      | _ => false
  | _ => true

theorem follow_of_isDeadEnd {name : FileName} {parent : Location} {target : Path} {spot : Spot} {node : Node}
    (h : files.isDeadEnd (name :: parent) (.link target) = true) (hnode : files.node? parent = some node) (links : Nat)
    (after : List Path.Segment) :
    files.follow .find links (files.startSpot ⟨parent, node, false⟩ target) (target.segments ++ after) ≠ .ok (.found spot) := by
  simp only [isDeadEnd, List.tail_cons, hnode] at h
  have hnot : ∀ links spot, files.follow .find links (files.startSpot ⟨parent, node, false⟩ target) target.segments ≠
      .ok (.found spot) := by
    intro links spot hfollow
    rcases follow_inv hfollow with hadvance | ⟨links', directory, target', rest, -, hadvance, -⟩
    · simp [hadvance] at h
    · simp [hadvance] at h
  intro hfollow
  by_cases hne : after = []
  · rw [hne, List.append_nil] at hfollow
    exact hnot links spot hfollow
  · obtain ⟨found, -, hfound, -⟩ := follow_prefix hne hfollow
    exact hnot links found hfound

theorem linksNowhere_of_isDeadEnd {location : Location} {root : Node} (hroot : files.node? location = some root)
    (h : (root.nodes location).all (fun entry => files.isDeadEnd entry.1 entry.2) = true) : files.LinksNowhere location := by
  intro name names target directory hlink hdirectory links after spot
  rw [node?_append, hroot, Option.bind_some] at hlink
  have hmem := Node.mem_nodes_of_at? location hlink
  have hdead : files.isDeadEnd (name :: (names ++ location)) (.link target) = true := List.all_eq_true.1 h _ hmem
  exact follow_of_isDeadEnd hdead hdirectory links after

/-- If no link leads anywhere, names lead down to the place that they name. -/
theorem node?_of_linksNowhere {names : List FileName} (hbase : files.find path.directory = .ok base)
    (hlive : base.removed = false) (hnowhere : files.LinksNowhere base.location) (hne : names ≠ [])
    (h : files.find (path.joinAll names) = .ok spot) :
    spot.location = names.reverse ++ base.location ∧ files.node? spot.location = some spot.node := by
  obtain ⟨links, hfollow⟩ := follow_of_find_joinAll hbase hne h
  have hbecomes := find_becomes hbase
  cases hbecomes with
  | @live location node _ hnode _ =>
    rcases follow_inv hfollow with hadvance | ⟨links', directory, target, rest, -, hadvance, honward⟩
    · rcases advance_along hnode hadvance with ⟨node', hnode', hfound⟩ | ⟨_, _, -, -, hfound⟩ | ⟨_, _, _, _, _, -, -, -, hfound⟩
      · cases hfound
        exact ⟨rfl, hnode'⟩
      · cases hfound
      · cases hfound
    · rcases advance_along hnode hadvance with ⟨node', -, hlink⟩ | ⟨_, _, -, -, hlink⟩ |
        ⟨front, name, after, node', target', -, hplace, hdirectory, hlink⟩
      · cases hlink
      · cases hlink
      · cases hlink
        exact absurd honward (hnowhere name _ _ _ hplace hdirectory links' _ spot)
  | removed => cases hlive

/-- If no link leads anywhere, a path reaches nothing but what is below its directory. -/
theorem suffix_of_reaches (hbase : files.find path.directory = .ok base) (hlive : base.removed = false)
    (hnowhere : files.LinksNowhere base.location) (h : files.Reaches path spot) : base.location <:+ spot.location := by
  rcases reaches_inv h with hfind | ⟨names, hne, hfind⟩
  · rw [hbase, Except.ok.injEq] at hfind
    exact hfind ▸ List.suffix_rfl
  · obtain ⟨hplace, -⟩ := node?_of_linksNowhere hbase hlive hnowhere hne hfind
    exact hplace ▸ List.suffix_append _ _

theorem linksNowhere_of_isPlain {location : Location} {node : Node} (hnode : files.node? location = some node)
    (h : node.isPlain) : files.LinksNowhere location := by
  intro name names target directory hlink
  cases isPlain_below h hnode hlink

/-- What a path reaches in a plain tree is no name of a file with several names. -/
theorem not_shared_of_reaches (hbase : files.find path.directory = .ok base) (h : base.node.isPlain)
    (hreaches : files.Reaches path spot) (id : FileId) : spot.node ≠ .shared id := by
  rcases reaches_inv hreaches with hfind | ⟨names, hne, hfind⟩
  · rw [hbase, Except.ok.injEq] at hfind
    subst hfind
    intro hnode
    rw [hnode] at h
    cases h
  · have hplain := plainBelow_of_isPlain hbase h
    obtain ⟨place, hbelow, ⟨node, hnode, harrival⟩ | ⟨_, _, _, _, harrival⟩⟩ :=
      below_of_walk hplain.linkFreeBelow hne (find_eq_ok_iff.1 hfind)
    · cases harrival
      exact (hbelow.plain hplain hnode).2 id
    · cases harrival

/-- Two directories are apart if neither is in the other, no link below the first leads anywhere, and the second is plain.
The second may be looked at in another file system. -/
theorem apart_of_isPlain {before : FileSystem} {base' : Spot} (hsource : before.find source.directory = .ok base)
    (htarget : files.find target.directory = .ok base') (hlive : base.removed = false) (hlive' : base'.removed = false)
    (hnowhere : before.LinksNowhere base.location) (hplain : base'.node.isPlain)
    (hnot : ¬ base.location <:+ base'.location) (hnot' : ¬ base'.location <:+ base.location) :
    Apart source target before files := by
  have hnowhere' := linksNowhere_of_isPlain ((find_becomes htarget).node? hlive') hplain
  rintro a b hreached hreached' (⟨hplace, -⟩ | ⟨id, -, hid⟩)
  · have hsuffix := suffix_of_reaches hsource hlive hnowhere hreached
    have hsuffix' := suffix_of_reaches htarget hlive' hnowhere' hreached'
    rw [← hplace] at hsuffix'
    rcases List.suffix_or_suffix_of_suffix hsuffix hsuffix' with hin | hin
    · exact hnot hin
    · exact hnot' hin
  · exact not_shared_of_reaches htarget hplain hreached' id hid

theorem not_receives_of_find (h : files.find target = .ok base) (directory : Location) : ¬ files.Receives target directory := by
  rintro ⟨-, name, hnone, hsome⟩
  unfold withDirectory at hsome
  rw [makeDirectories_of_find h] at hsome
  exact hsome hnone

/-- An entry that a directory receives has a path among the ancestors of the target once it is made. -/
theorem receives_inv {directory : Location} (h : files.Receives target directory) : ∃ name, ∃ path ∈ target.ancestors,
    ∃ spot, (files.withDirectory target).find path = .ok spot ∧ spot.location = name :: directory := by
  obtain ⟨-, name, hnone, hsome⟩ := h
  rw [get?_eq_none_iff] at hnone
  rw [ne_eq, get?_eq_none_iff] at hsome
  rcases (withDirectory_madeAt files target).bare? (name :: directory) with hsame | ⟨-, -, path, hpath, spot, hfind, hplace, -⟩
  · exact absurd (hsame.trans hnone) hsome
  · exact ⟨name, path, hpath, spot, hfind, hplace⟩

/-- What source and target lead to at first has nothing in common, and the target is not made inside the source. -/
structure SeparatedAtFirst (files : FileSystem) (source target : Path) : Prop where
  apart : Apart source target files files
  not_receives : ∀ a, files.Reaches source a → a.removed = false → ¬ files.Receives target a.location

/-- Nothing need be made of a target that is there. -/
theorem SeparatedAtFirst.separated (h : files.SeparatedAtFirst source target) (htarget : files.find target = .ok base) :
    files.Separated source target := by
  have hsame : files.withDirectory target = files := makeDirectories_of_find htarget _
  refine ⟨?_, h.not_receives⟩
  rw [hsame]
  exact h.apart

/-- Two directories are separated if neither is in the other, no link of the first leads anywhere, and the second is plain. -/
theorem separatedAtFirst_of_linksNowhere {base' : Spot} (hsource : files.find source.directory = .ok base)
    (htarget : files.find target = .ok base') (hlive : base.removed = false) (hlive' : base'.removed = false)
    (hnowhere : files.LinksNowhere base.location) (hplain : base'.node.isPlain) (hnot : ¬ base.location <:+ base'.location)
    (hnot' : ¬ base'.location <:+ base.location) : files.SeparatedAtFirst source target := by
  refine ⟨?_, fun a _ _ => not_receives_of_find htarget a.location⟩
  exact apart_of_isPlain hsource ((directory_of_find htarget).symm ▸ htarget) hlive hlive' hnowhere hplain hnot hnot'

/-- Two plain directories are separated if neither is in the other. -/
theorem separatedAtFirst_of_isPlain {base' : Spot} (hsource : files.find source.directory = .ok base)
    (htarget : files.find target = .ok base') (hlive : base.removed = false) (hlive' : base'.removed = false)
    (hplain : base.node.isPlain) (hplain' : base'.node.isPlain) (hnot : ¬ base.location <:+ base'.location)
    (hnot' : ¬ base'.location <:+ base.location) : files.SeparatedAtFirst source target := by
  have hnowhere := linksNowhere_of_isPlain ((find_becomes hsource).node? hlive) hplain
  exact separatedAtFirst_of_linksNowhere hsource htarget hlive hlive' hnowhere hplain' hnot hnot'

section Unmade

variable (hsource : files.find source.directory = .ok base) (hlive : base.removed = false) (hplain : base.node.isPlain)
  (hplaces : ∀ path ∈ target.ancestors, ∀ spot, (files.withDirectory target).find path = .ok spot →
    ¬ base.location <:+ spot.location.tail)

include hsource hlive hplain hplaces

/-- A plain source receives nothing if no ancestor of the target has its place in it. -/
theorem not_receives_of_places (hreached : files.Reaches source spot) : ¬ files.Receives target spot.location := by
  intro hreceives
  obtain ⟨name, path, hpath, spot', hfind, hplace⟩ := receives_inv hreceives
  have hnowhere := linksNowhere_of_isPlain ((find_becomes hsource).node? hlive) hplain
  have hsuffix := suffix_of_reaches hsource hlive hnowhere hreached
  refine hplaces path hpath spot' hfind ?_
  rw [hplace, List.tail_cons]
  exact hsuffix

/-- A target that leads nowhere at first is separated at first from a plain source in which it is not made. -/
theorem separatedAtFirst_of_unmade (htarget : ∀ base', files.find target.directory ≠ .ok base') :
    files.SeparatedAtFirst source target := by
  refine ⟨?_, fun a hreached _ => not_receives_of_places hsource hlive hplain hplaces hreached⟩
  intro a b _ hreached
  obtain ⟨base', hbase'⟩ := find_directory_of_reaches hreached
  exact absurd hbase' (htarget base')

/-- A plain source is separated from a target that is plain once it is made, if neither is in the other. -/
theorem separated_of_places {base' : Spot} (htarget : (files.withDirectory target).find target.directory = .ok base')
    (hlive' : base'.removed = false) (hplain' : base'.node.isPlain) (hnot : ¬ base.location <:+ base'.location)
    (hnot' : ¬ base'.location <:+ base.location) : files.Separated source target := by
  have hnowhere := linksNowhere_of_isPlain ((find_becomes hsource).node? hlive) hplain
  exact ⟨apart_of_isPlain hsource htarget hlive hlive' hnowhere hplain' hnot hnot',
    fun a hreached _ => not_receives_of_places hsource hlive hplain hplaces hreached⟩

end Unmade

/-- Whether no ancestor of a target leads into a directory once the target is made. -/
def clearOf (files : FileSystem) (location : Location) (target : Path) : Bool :=
  target.ancestors.all fun path =>
    match (files.withDirectory target).find path with
    | .ok spot => !location.isSuffixOf spot.location.tail
    | .error _ => true

theorem not_suffix_of_clearOf {location : Location} (h : files.clearOf location target = true) :
    ∀ path ∈ target.ancestors, ∀ spot, (files.withDirectory target).find path = .ok spot →
      ¬ location <:+ spot.location.tail := by
  intro path hpath spot hfind hsuffix
  have hclear := List.all_eq_true.1 h path hpath
  rw [hfind] at hclear
  have hisSuffix := List.isSuffixOf_iff_suffix.2 hsuffix
  simp [hisSuffix] at hclear

/-! ## A small plain file system -/

/-- The file system that some calls have set up. -/
def built (files : Except SystemError FileSystem) : FileSystem :=
  files.toOption.getD .empty

/-- The name `s`. -/
def directoryName : FileName :=
  ⟨[0x73], by decide⟩

/-- The name `f`. -/
def fileName : FileName :=
  ⟨[0x66], by decide⟩

/-- A file system with one file, at `s/f`. -/
def oneFile : FileSystem :=
  built (FileSystem.empty.writeFile (.ofString "s/f") [0x78])

/-- The name `t`. -/
def targetName : FileName :=
  ⟨[0x74], by decide⟩

theorem valid_firstName : FileName.Valid [0x78] := by
  decide

theorem valid_secondName : FileName.Valid [0x79] := by
  decide

theorem valid_linkName : FileName.Valid [0x6C] := by
  decide

/-- The name `x`. -/
def firstName : FileName :=
  ⟨[0x78], valid_firstName⟩

/-- The name `y`. -/
def secondName : FileName :=
  ⟨[0x79], valid_secondName⟩

/-- The name `l`. -/
def linkName : FileName :=
  ⟨[0x6C], valid_linkName⟩

/-- A file system with one file, at `s/f`, and an empty directory `t`. -/
def twoDirectories : FileSystem :=
  built (oneFile.ensurePath (.ofString "t"))

theorem directoryName_not_suffix : ¬ [directoryName] <:+ [targetName] := by
  decide

theorem targetName_not_suffix : ¬ [targetName] <:+ [directoryName] := by
  decide

/-- Two plain trees at `s` and `t` are separated. -/
theorem separatedAtFirst_s_t {node node' : Node}
    (hsource : files.find (Path.ofString "s").directory = .ok ⟨[directoryName], node, false⟩)
    (htarget : files.find (.ofString "t") = .ok ⟨[targetName], node', false⟩) (hplain : node.isPlain)
    (hplain' : node'.isPlain) :
    files.SeparatedAtFirst (.ofString "s") (.ofString "t") :=
  separatedAtFirst_of_isPlain hsource htarget rfl rfl hplain hplain' directoryName_not_suffix targetName_not_suffix

theorem separated_twoDirectories : twoDirectories.Separated (.ofString "s") (.ofString "t") := by
  have hsource : twoDirectories.find (Path.ofString "s").directory =
      .ok ⟨[directoryName], .directory 0o755 [(fileName, .file ⟨[0x78], 0o644⟩)], false⟩ := rfl
  have htarget : twoDirectories.find (.ofString "t") = .ok ⟨[targetName], .directory 0o755 [], false⟩ := rfl
  exact (separatedAtFirst_s_t hsource htarget rfl rfl).separated htarget

theorem plainBelow_twoDirectories :
    (twoDirectories.withDirectory (.ofString "t")).PlainBelow (.ofString "t") := by
  have htarget : (twoDirectories.withDirectory (.ofString "t")).find (Path.ofString "t").directory =
      .ok ⟨[targetName], .directory 0o755 [], false⟩ := rfl
  exact plainBelow_of_isPlain htarget rfl

end FileSystem

end ConsoleKit
