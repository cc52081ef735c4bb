import ConsoleKit.Proofs.Files.Growth

/-!
# What calls change

A call that changes a file system changes it at one place, or the data of one file with several names. `PutAt` is the
first kind; making a directory is one (`makeDirectory_spec`), and copying a file is of one of three kinds
(`copyFile_spec`). Either way the file system only grows.
-/

namespace ConsoleKit

namespace Node

theorem at?_of_bare {node : Node} (h : node.bare = node) {names : Location} (hnames : names ≠ []) :
    node.at? names = none := by
  rcases List.eq_nil_or_concat names with rfl | ⟨names, name, rfl⟩
  · exact absurd rfl hnames
  · rw [List.concat_eq_append, at?_append, ← h]
    cases node <;> rfl

end Node

namespace FileSystem

variable {files files' : FileSystem}

theorem node?_append (files : FileSystem) (names location : Location) :
    files.node? (names ++ location) = (files.node? location).bind fun node => node.at? names :=
  Node.at?_append _ _ _

theorem node?_below {location : Location} (h : ∀ node, files.node? location = some node → node.bare = node)
    {names : Location} (hnames : names ≠ []) : files.node? (names ++ location) = none := by
  rw [node?_append]
  cases hnode : files.node? location with
  | none => rfl
  | some node => exact Node.at?_of_bare (h node hnode) hnames

theorem node?_parent {name : FileName} {parent : Location} {node : Node} (h : files.node? (name :: parent) = some node) :
    ∃ mode entries, files.node? parent = some (.directory mode entries) ∧ entries.lookup name = some node := by
  rw [node?_cons] at h
  obtain ⟨full, hfull, hchild⟩ := Option.bind_eq_some_iff.1 h
  cases full with
  | directory mode entries => exact ⟨mode, entries, hfull, hchild⟩
  | _ => cases hchild

/-- Nothing changes but what is at one place. -/
structure PutAt (files files' : FileSystem) (place : Location) (node : Node) : Prop where
  workingDirectory : files'.workingDirectory = files.workingDirectory
  shared : files'.shared = files.shared
  bare?_eq : ∀ place', files'.bare? place' = if place' = place then some node else files.bare? place'

/-- A node without entries is put where nothing is, or in place of another node without entries. -/
theorem putAt_put {name : FileName} {parent : Location} {node : Node} {mode : Mode} {entries : List (FileName × Node)}
    (hnode : node.Ordered) (hparent : files.node? parent = some (.directory mode entries))
    (hbare : node.bare = node) (hold : ∀ old, files.node? (name :: parent) = some old → old.bare = old) :
    PutAt files (files.put (name :: parent) node hnode) (name :: parent) node := by
  refine ⟨rfl, rfl, ?_⟩
  intro place
  by_cases hplace : name :: parent <:+ place
  · obtain ⟨names, rfl⟩ := hplace
    rw [bare?, node?, put, Node.at?_put_append hparent]
    by_cases hnames : names = []
    · subst hnames
      rw [if_pos (List.nil_append _), Node.at?_nil, Option.map_some, hbare]
    · rw [if_neg (by simpa using hnames), Node.at?_of_bare hbare hnames, bare?, node?_below hold hnames]
  · have hne : place ≠ name :: parent := by
      rintro rfl
      exact hplace List.suffix_rfl
    rw [if_neg hne]
    exact Node.bare_at?_put files.root node hplace

theorem node?_put {name : FileName} {parent : Location} {mode : Mode} {entries : List (FileName × Node)}
    (hparent : files.node? parent = some (.directory mode entries)) (node : Node) (hnode : node.Ordered) :
    (files.put (name :: parent) node hnode).node? (name :: parent) = some node :=
  Node.at?_put_append hparent []

theorem putAt_setData {place : Location} {old : FileData} (h : files.node? place = some (.file old)) (data : FileData) :
    PutAt files (files.setData (.own place) data) place (.file data) := by
  cases place with
  | nil =>
    refine ⟨rfl, rfl, ?_⟩
    intro place
    have hroot : files.root = .file old := Option.some.inj h
    show ((Node.file data).at? place).map Node.bare = _
    by_cases hplace : place = []
    · subst hplace
      rfl
    · rw [if_neg hplace, Node.at?_of_bare rfl hplace, bare?, node?, hroot, Node.at?_of_bare rfl hplace]
  | cons name parent =>
    obtain ⟨mode, entries, hparent, -⟩ := node?_parent h
    refine putAt_put (.file data) hparent rfl fun old' hold' => ?_
    rw [h, Option.some.injEq] at hold'
    rw [← hold']
    rfl

theorem PutAt.grows {place : Location} {node : Node} (h : PutAt files files' place node)
    (hold : ∀ old, files.bare? place = some old → old.Kept node) : Grows files files' := by
  refine ⟨h.workingDirectory, ?_⟩
  intro place' old hbare
  rw [h.bare?_eq]
  by_cases hplace : place' = place
  · subst hplace
    exact ⟨node, if_pos rfl, hold old hbare⟩
  · exact ⟨old, by rw [if_neg hplace, hbare], .same old⟩

/-- A file system that had something like it at the place already is still ahead. -/
theorem PutAt.grows_of {ahead : FileSystem} {place : Location} {node node' : Node} (h : PutAt files files' place node)
    (hgrows : Grows files ahead) (hnode : ahead.bare? place = some node') (hkept : node.Kept node') : Grows files' ahead := by
  refine ⟨hgrows.workingDirectory.trans h.workingDirectory.symm, ?_⟩
  intro place' new hbare
  rw [h.bare?_eq] at hbare
  split at hbare
  · rename_i hplace
    cases hbare
    exact ⟨node', hplace ▸ hnode, hkept⟩
  · exact hgrows.kept place' new hbare

theorem grows_setData_shared (id : FileId) (data : FileData) : Grows files (files.setData (.shared id) data) :=
  ⟨rfl, fun _ node h => ⟨node, h, .same node⟩⟩

/-! ## Places where nothing is -/

theorem advance_vacant {purpose : Purpose} {spot : Spot} {segments : List Path.Segment} {directory : Location}
    {name : FileName} (hspot : Spot.Becomes files files spot spot)
    (h : files.advance purpose spot segments = .ok (.arrived (.vacant directory name))) :
    (∃ mode entries, files.node? directory = some (.directory mode entries)) ∧ files.node? (name :: directory) = none := by
  induction segments generalizing spot with
  | nil => cases h
  | cons segment rest ih =>
    rcases advance_inv h with ⟨-, ⟨next, hpasses, honward⟩ |
      ⟨location, mode, entries, piece, name', rfl, rfl, -, ⟨hlookup, -, hvacant⟩ | ⟨_, _, hlink⟩⟩⟩
    · obtain ⟨next', hpasses', hnext⟩ := hpasses.becomes (Grows.refl files) hspot
      exact ih hnext.self honward
    · cases hvacant
      cases hspot with
      | live hlive _ =>
        refine ⟨⟨mode, entries, hlive⟩, ?_⟩
        rw [node?_cons, hlive]
        exact hlookup
    · cases hlink

theorem follow_vacant {purpose : Purpose} {links : Nat} {spot : Spot} {segments : List Path.Segment}
    {directory : Location} {name : FileName} (hspot : Spot.Becomes files files spot spot)
    (h : files.follow purpose links spot segments = .ok (.vacant directory name)) :
    (∃ mode entries, files.node? directory = some (.directory mode entries)) ∧ files.node? (name :: directory) = none := by
  induction links generalizing spot segments with
  | zero =>
    rcases follow_inv h with hadvance | ⟨_, _, _, _, hlinks, _, _⟩
    · exact advance_vacant hspot hadvance
    · cases hlinks
  | succ links ih =>
    rcases follow_inv h with hadvance | ⟨_, directory', target, rest, hlinks, hadvance, honward⟩
    · exact advance_vacant hspot hadvance
    · cases hlinks
      rcases advance_grows (Grows.refl files) hspot hadvance with ⟨_, _, hvacant⟩ | ⟨_, hstretch', hlink⟩
      · cases hvacant
      · cases hlink with
        | link target rest hdirectory =>
          rw [hadvance] at hstretch'
          cases hstretch'
          exact ih (startSpot_becomes hdirectory target) honward

theorem walk_vacant {purpose : Purpose} {path : Path} {directory : Location} {name : FileName}
    (h : files.walk purpose path = .ok (.vacant directory name)) :
    (∃ mode entries, files.node? directory = some (.directory mode entries)) ∧ files.node? (name :: directory) = none := by
  obtain ⟨-, spot, horigin, hfollow⟩ := walk_eq_ok_iff.1 h
  exact follow_vacant (origin_becomes horigin) hfollow

/-! ## Places that are filled

A walk that arrives where nothing is finds what has been put there. It need not end at the place that the path spells:
the last link on the way may lead to a missing file. -/

theorem advance_filled (h : Grows files files') {purpose : Purpose} {spot spot' : Spot} {segments : List Path.Segment}
    {directory : Location} {name : FileName} {node : Node} (hs : Spot.Becomes files files' spot spot')
    (hnode : files'.node? (name :: directory) = some node) (hlink : ∀ target, node ≠ .link target)
    (hvacant : files.advance purpose spot segments = .ok (.arrived (.vacant directory name))) :
    files'.advance purpose spot' segments = .ok (.arrived (.found ⟨name :: directory, node, false⟩)) := by
  induction segments generalizing spot spot' with
  | nil => cases hvacant
  | cons segment rest ih =>
    rcases advance_inv hvacant with ⟨hrefused, ⟨next, hpasses, honward⟩ |
      ⟨location, mode, entries, piece, name', rfl, rfl, hname, ⟨hlookup, rfl, hplace⟩ | ⟨_, _, hstretch⟩⟩⟩
    · obtain ⟨next', hpasses', hnext⟩ := hpasses.becomes h hs
      rw [advance_passes hpasses' hrefused]
      exact ih hnext honward
    · cases hplace
      obtain ⟨entries', hentries'⟩ := hs.directory h rfl
      cases hs with
      | live _ hlive' =>
        subst hentries'
        rw [node?_cons, hlive'] at hnode
        exact advance_passes (.entry hname hnode hlink) hrefused
    · cases hstretch

theorem follow_filled (h : Grows files files') {purpose : Purpose} {links : Nat} {spot spot' : Spot}
    {segments : List Path.Segment} {directory : Location} {name : FileName} {node : Node}
    (hs : Spot.Becomes files files' spot spot') (hnode : files'.node? (name :: directory) = some node)
    (hlink : ∀ target, node ≠ .link target)
    (hvacant : files.follow purpose links spot segments = .ok (.vacant directory name)) :
    files'.follow purpose links spot' segments = .ok (.found ⟨name :: directory, node, false⟩) := by
  induction links generalizing spot spot' segments with
  | zero =>
    rcases follow_inv hvacant with hadvance | ⟨_, _, _, _, hlinks, _, _⟩
    · exact follow_of_arrived (advance_filled h hs hnode hlink hadvance)
    · cases hlinks
  | succ links ih =>
    rcases follow_inv hvacant with hadvance | ⟨_, _, target, rest, hlinks, hadvance, honward⟩
    · exact follow_of_arrived (advance_filled h hs hnode hlink hadvance)
    · cases hlinks
      rcases advance_grows h hs hadvance with ⟨_, _, hstretch⟩ | ⟨_, hstretch', hstretch⟩
      · cases hstretch
      · cases hstretch with
        | link target rest hdirectory =>
          rw [follow_of_link hstretch']
          exact ih (startSpot_becomes hdirectory target) honward

theorem find_filled (h : Grows files files') {purpose : Purpose} {path : Path} {directory : Location} {name : FileName}
    {node : Node} (hnode : files'.node? (name :: directory) = some node) (hlink : ∀ target, node ≠ .link target)
    (hvacant : files.walk purpose path = .ok (.vacant directory name)) :
    files'.find path = .ok ⟨name :: directory, node, false⟩ := by
  obtain ⟨hcheck, start, horigin, hfollow⟩ := walk_eq_ok_iff.1 hvacant
  obtain ⟨start', horigin', hstart⟩ := origin_grows h horigin
  exact find_of_walk (walk_eq_ok_iff.2 ⟨hcheck, start', horigin', follow_filled h hstart hnode hlink hfollow⟩)

end FileSystem

end ConsoleKit
