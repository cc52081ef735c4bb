import ConsoleKit.Proofs.Files.Directories

/-!
# Kinds of files

A call changes the data of files, but never what kind of thing is at a place. In a file system of directories and regular
files (`Ordinary`), a path of names leads to one place, whether anything is there or not (`Denotes`), and what is found
there has the kind of the place (`Denotes.stat_file`, `Denotes.stat_directory`). That only needs links to be absent.
-/

namespace ConsoleKit

/-- The kinds of things in a file system. -/
inductive Kind where
  | directory
  | file
  | link
  | device
  deriving DecidableEq, Repr

/-- The kind of a node. A name of a file with several names is a file, too. -/
def Node.kind : Node → Kind
  | .directory _ _ => .directory
  | .file _ => .file
  | .shared _ => .file
  | .link _ => .link
  | .device => .device

namespace FileSystem

open ConsoleKit.Path (along)

variable {files files' : FileSystem} {place location : Location} {path : Path} {names rest : List FileName} {kind : Kind}

/-- The kind of what is at a place. -/
def kind? (files : FileSystem) (place : Location) : Option Kind :=
  (files.node? place).map Node.kind

theorem kind?_eq_some_iff : files.kind? place = some kind ↔ ∃ node, files.node? place = some node ∧ node.kind = kind :=
  Option.map_eq_some_iff

theorem kind?_eq_none_iff : files.kind? place = none ↔ files.node? place = none :=
  Option.map_eq_none_iff

theorem kind?_eq_map_bare? (files : FileSystem) (place : Location) : files.kind? place = (files.bare? place).map Node.kind := by
  rw [kind?, bare?, Option.map_map]
  congr 1
  funext node
  cases node <;> rfl

theorem kind?_eq_directory_iff : files.kind? place = some .directory ↔
    ∃ mode entries, files.node? place = some (.directory mode entries) := by
  rw [kind?_eq_some_iff]
  constructor
  · rintro ⟨node, hnode, hkind⟩
    cases node <;> cases hkind
    exact ⟨_, _, hnode⟩
  · rintro ⟨mode, entries, hnode⟩
    exact ⟨_, hnode, rfl⟩

/-- What a directory is in is a directory. -/
theorem kind?_above {below : Location} (h : files.kind? (below ++ place) = some .directory) :
    files.kind? place = some .directory := by
  induction below with
  | nil => exact h
  | cons name below ih =>
    obtain ⟨mode, entries, hnode⟩ := kind?_eq_directory_iff.1 h
    obtain ⟨mode', entries', hparent, -⟩ := node?_parent hnode
    exact ih (kind?_eq_directory_iff.2 ⟨mode', entries', hparent⟩)

theorem node?_above {below : Location} {node : Node} (h : files.node? (below ++ place) = some node) :
    ∃ node', files.node? place = some node' := by
  rw [node?_append] at h
  obtain ⟨node', hnode', -⟩ := Option.bind_eq_some_iff.1 h
  exact ⟨node', hnode'⟩

theorem Grows.kind? (h : Grows files files') (hkind : files.kind? place = some kind) : files'.kind? place = some kind := by
  rw [kind?_eq_map_bare?, Option.map_eq_some_iff] at *
  obtain ⟨node, hnode, rfl⟩ := hkind
  obtain ⟨node', hnode', hkept⟩ := h.kept place node hnode
  refine ⟨node', hnode', ?_⟩
  cases hkept <;> rfl

theorem Spot.Becomes.directory_eq {mode : Mode} {entries : List (FileName × Node)} {spot : Spot}
    (h : Spot.Becomes files files' ⟨location, .directory mode entries, false⟩ spot) (hgrows : Grows files files') :
    ∃ entries', spot = ⟨location, .directory mode entries', false⟩ := by
  obtain ⟨entries', hnode⟩ := h.directory hgrows rfl
  have hlocation := h.location_eq
  have hlive := h.removed_eq
  cases spot
  cases hnode
  cases hlocation
  cases hlive
  exact ⟨entries', rfl⟩

theorem origin_directory_grows (h : Grows files files') {mode : Mode} {entries : List (FileName × Node)}
    (horigin : files.origin path = .ok ⟨location, .directory mode entries, false⟩) :
    ∃ entries', files'.origin path = .ok ⟨location, .directory mode entries', false⟩ := by
  obtain ⟨spot, horigin', hbecomes⟩ := origin_grows h horigin
  obtain ⟨entries', rfl⟩ := hbecomes.directory_eq h
  exact ⟨entries', horigin'⟩

theorem find_directory_grows (h : Grows files files') {mode : Mode} {entries : List (FileName × Node)}
    (hfind : files.find path = .ok ⟨location, .directory mode entries, false⟩) :
    ∃ entries', files'.find path = .ok ⟨location, .directory mode entries', false⟩ := by
  obtain ⟨spot, hfind', hbecomes⟩ := find_grows h hfind
  obtain ⟨entries', rfl⟩ := hbecomes.directory_eq h
  exact ⟨entries', hfind'⟩

/-! ## Directories and regular files -/

/-- A file system of directories and regular files: without links and devices. -/
def Ordinary (files : FileSystem) : Prop :=
  ∀ place entry, files.get? place = some entry → (∃ mode, entry = .directory mode) ∨ ∃ data, entry = .file data

theorem ordinary_iff : files.Ordinary ↔ ∀ place kind, files.kind? place = some kind → kind = .directory ∨ kind = .file := by
  constructor
  · intro h place kind hkind
    obtain ⟨node, hnode, rfl⟩ := kind?_eq_some_iff.1 hkind
    have hentry : files.get? place = some (files.entryOf node) := by rw [get?, hnode]; rfl
    rcases h place _ hentry with ⟨mode, hmode⟩ | ⟨data, hdata⟩
    · cases node <;> cases hmode
      exact .inl rfl
    · cases node <;> cases hdata
      · exact .inr rfl
      · exact .inr rfl
  · intro h place entry hentry
    obtain ⟨node, hnode, rfl⟩ := Option.map_eq_some_iff.1 hentry
    have hkind := h place _ (kind?_eq_some_iff.2 ⟨node, hnode, rfl⟩)
    cases node with
    | directory mode entries => exact .inl ⟨mode, rfl⟩
    | file data => exact .inr ⟨data, rfl⟩
    | shared id => exact .inr ⟨files.shared id, rfl⟩
    | link target => simp [Node.kind] at hkind
    | device => simp [Node.kind] at hkind

theorem Ordinary.not_link (h : files.Ordinary) (target : Path) : files.node? place ≠ some (.link target) := by
  intro hnode
  have hkind := ordinary_iff.1 h place .link (kind?_eq_some_iff.2 ⟨_, hnode, rfl⟩)
  simp at hkind

theorem Ordinary.linkFree (h : files.Ordinary) (location : Location) : files.LinkFree location :=
  fun _ target _ => h.not_link target

theorem LinkFree.below (h : files.LinkFree place) (below : Location) : files.LinkFree (below ++ place) := by
  intro names target hne
  rw [← List.append_assoc]
  exact h (names ++ below) target (by simp [hne])

/-- Without links in the whole tree there are none below any path. -/
theorem LinkFree.linkFreeBelow (h : files.LinkFree []) (path : Path) : files.LinkFreeBelow path :=
  fun base hbase hlive => ⟨(find_becomes hbase).node? hlive, by simpa using h.below base.location⟩

theorem Ordinary.linkFreeBelow (h : files.Ordinary) (path : Path) : files.LinkFreeBelow path :=
  (h.linkFree []).linkFreeBelow path

/-- The kind of what `stat` shows. -/
theorem stat_directory_or_file (h : files.Ordinary) {entry : Entry} (hstat : files.stat path = .ok entry) :
    (∃ mode, entry = .directory mode) ∨ ∃ data, entry = .file data := by
  obtain ⟨spot, hfind, rfl⟩ := stat_eq_ok_iff.1 hstat
  have hbecomes := find_becomes hfind
  cases hbecomes with
  | @live location node _ hnode _ => exact h location _ (by rw [get?, hnode]; rfl)
  | removed location mode => exact .inl ⟨mode, rfl⟩

/-! ## Paths of names -/

/-- A walk along names from a place without links below it ends at the place that they make. -/
theorem LinkFree.follow_along (h : files.LinkFree location) {purpose : Purpose} {links : Nat} {node : Node} {spot : Spot}
    (hnode : files.node? location = some node)
    (hfollow : files.follow purpose links ⟨location, node, false⟩ (along names) = .ok (.found spot)) :
    ∃ node', files.node? (names.reverse ++ location) = some node' ∧ spot = ⟨names.reverse ++ location, node', false⟩ := by
  rcases follow_inv hfollow with hadvance | ⟨_, _, _, _, -, hadvance, -⟩
  · rcases h.advance_along hnode hadvance with ⟨node', hnode', hspot⟩ | ⟨_, _, -, -, hspot⟩
    · cases hspot
      exact ⟨node', hnode', rfl⟩
    · cases hspot
  · rcases h.advance_along hnode hadvance with ⟨_, -, hspot⟩ | ⟨_, _, -, -, hspot⟩ <;> cases hspot

/-- What the system does with the beginning of a path is what it does with the path, up to there. -/
theorem origin_of_isPrefix (files : FileSystem) {target : Path} (hcheck : checkPath target = .ok ())
    (hbegins : path.spelling <+: target.spelling)
    (hempty : ¬ path.isEmpty) : checkPath path = .ok () ∧ files.origin path = files.origin target := by
  have hne : path.spelling ≠ [] := by simpa [Path.isEmpty] using hempty
  exact ⟨checkPath_of_isPrefix hcheck hne hbegins, origin_congr (Path.isAbsolute_of_isPrefix hbegins hne)⟩

/-- The beginning of a path, if it is one of names, leads to the place that they make. -/
theorem LinkFree.find_beginning (h : files.LinkFree location) {target : Path} {mode : Mode} {entries : List (FileName × Node)}
    {spot : Spot} (hcheck : checkPath target = .ok ())
    (horigin : files.origin target = .ok ⟨location, .directory mode entries, false⟩)
    (hbegins : path.spelling <+: target.spelling) (hsteps : path.steps = along names) (hfind : files.find path = .ok spot) :
    ∃ node, files.node? (names.reverse ++ location) = some node ∧ spot = ⟨names.reverse ++ location, node, false⟩ := by
  obtain ⟨hcheck', start, horigin', hfollow⟩ := follow_of_find hfind
  rw [(origin_of_isPrefix files hcheck hbegins (not_isEmpty_of_checkPath hcheck')).2, horigin, Except.ok.injEq] at horigin'
  subst horigin'
  rw [hsteps] at hfollow
  exact h.follow_along ((origin_becomes horigin).node? rfl) hfollow

/-- Where all that is there on the way is a directory, a walk to a missing place fails because it is missing. -/
theorem advance_along_missing {node : Node} (hnode : files.node? location = some node)
    (hway : ∀ front, front <+: names → ∀ kind, files.kind? (front.reverse ++ location) = some kind → kind = .directory)
    (hnone : files.node? (names.reverse ++ location) = none) :
    (∃ directory name, files.advance .find ⟨location, node, false⟩ (along names) = .ok (.arrived (.vacant directory name))) ∨
      files.advance .find ⟨location, node, false⟩ (along names) = .error .notFound := by
  induction names generalizing location node with
  | nil =>
    rw [List.reverse_nil, List.nil_append, hnode] at hnone
    cases hnone
  | cons name names ih =>
    have halong : along (name :: names) = .entry name.bytes :: along names := rfl
    have happend : ∀ front : List FileName, (name :: front).reverse ++ location = front.reverse ++ name :: location := by simp
    obtain ⟨mode, entries, hdirectory⟩ := kind?_eq_directory_iff.1
      ((kind?_eq_some_iff.2 ⟨node, hnode, rfl⟩).trans
        (congrArg some (hway [] List.nil_prefix _ (kind?_eq_some_iff.2 ⟨node, hnode, rfl⟩))))
    rw [hnode, Option.some.injEq] at hdirectory
    subst hdirectory
    have hlookup : files.node? (name :: location) = entries.lookup name := by rw [node?_cons, hnode]; rfl
    rw [halong]
    cases hchild : entries.lookup name with
    | none =>
      rw [advance_missing not_refused_find (ofBytes?_bytes name) hchild]
      cases names with
      | nil => exact .inl ⟨location, name, rfl⟩
      | cons _ _ => exact .inr rfl
    | some child =>
      rw [hchild] at hlookup
      have hkind : child.kind = .directory :=
        hway [name] (by simp) _ (kind?_eq_some_iff.2 ⟨child, hlookup, rfl⟩)
      have hlink : ∀ target, child ≠ .link target := by
        rintro target rfl
        cases hkind
      rw [advance_passes (.entry (ofBytes?_bytes name) hchild hlink) not_refused_find]
      refine ih hlookup (fun front hfront kind hkind => ?_) (happend names ▸ hnone)
      refine hway (name :: front) ?_ kind (happend front ▸ hkind)
      exact (List.prefix_cons_inj name).2 hfront

/-- A path is spelled by names, from a directory of the file system on, with any slashes between and behind them. -/
structure Spells (files : FileSystem) (path : Path) (location : Location) (names : List FileName) : Prop where
  steps : path.steps = along names
  origin : ∃ mode entries, files.origin path = .ok ⟨location, .directory mode entries, false⟩

theorem Spells.kind?_start (h : files.Spells path location names) : files.kind? location = some .directory := by
  obtain ⟨mode, entries, horigin⟩ := h.origin
  exact kind?_eq_directory_iff.2 ⟨mode, entries, (origin_becomes horigin).node? rfl⟩

theorem Spells.grows (h : files.Spells path location names) (hgrows : Grows files files') :
    files'.Spells path location names := by
  obtain ⟨mode, entries, horigin⟩ := h.origin
  obtain ⟨entries', horigin'⟩ := origin_directory_grows hgrows horigin
  exact ⟨h.steps, mode, entries', horigin'⟩

theorem Spells.find_inv (h : files.Spells path location names) (hfree : files.LinkFree location) {spot : Spot}
    (hfind : files.find path = .ok spot) :
    ∃ node, files.node? (names.reverse ++ location) = some node ∧ spot = ⟨names.reverse ++ location, node, false⟩ := by
  obtain ⟨mode, entries, horigin⟩ := h.origin
  obtain ⟨hcheck, -⟩ := follow_of_find hfind
  exact hfree.find_beginning hcheck horigin List.prefix_rfl h.steps hfind

theorem Spells.joinAll (h : files.Spells path location names) (rest : List FileName) :
    files.Spells (path.joinAll rest) location (names ++ rest) := by
  refine ⟨?_, ?_⟩
  · rw [Path.steps_joinAll, h.steps, along, along, along, List.map_append]
  · rw [origin_congr (Path.isAbsolute_joinAll path rest)]
    exact h.origin

/-- A path of names, from a directory of the file system on, that the system accepts: it stands for a place, whether anything
is there or not. -/
structure Denotes (files : FileSystem) (path : Path) (location : Location) (names : List FileName) :
    Prop where
  accepted : checkPath path = .ok ()
  steps : path.steps = along names
  endsInSlash : path.endsInSlash = false
  origin : ∃ mode entries, files.origin path = .ok ⟨location, .directory mode entries, false⟩

theorem Denotes.spells (h : files.Denotes path location names) : files.Spells path location names :=
  ⟨h.steps, h.origin⟩

theorem Denotes.kind?_start (h : files.Denotes path location names) : files.kind? location = some .directory :=
  h.spells.kind?_start

theorem Denotes.segments (h : files.Denotes path location names) : path.segments = along names := by
  rw [Path.segments, h.endsInSlash, if_neg (by simp), h.steps]

theorem Denotes.grows (h : files.Denotes path location names) (hgrows : Grows files files') :
    files'.Denotes path location names :=
  ⟨h.accepted, h.steps, h.endsInSlash, (h.spells.grows hgrows).origin⟩

/-- The beginning of a path of names. -/
theorem Denotes.beginning {target : Path} {front : List FileName} (h : files.Denotes target location names)
    (hbegins : path.spelling <+: target.spelling) (hsteps : path.steps = along front) (hslash : path.endsInSlash = false)
    (hne : front ≠ []) : files.Denotes path location front := by
  have hempty : ¬ path.isEmpty := by
    intro hempty
    rw [Path.steps_of_isEmpty hempty] at hsteps
    exact along_ne_nil hne hsteps.symm
  obtain ⟨hcheck, horigin⟩ := origin_of_isPrefix files h.accepted hbegins hempty
  exact ⟨hcheck, hsteps, hslash, horigin ▸ h.origin⟩

theorem Denotes.joinAll (h : files.Denotes path location names) (haccepted : checkPath (path.joinAll rest) = .ok ()) :
    files.Denotes (path.joinAll rest) location (names ++ rest) := by
  have hspells := h.spells.joinAll rest
  exact ⟨haccepted, hspells.steps, Path.endsInSlash_joinAll h.endsInSlash rest, hspells.origin⟩

theorem Denotes.find (h : files.Denotes path location names) (hfree : files.LinkFree location) {node : Node}
    (hnode : files.node? (names.reverse ++ location) = some node) :
    files.find path = .ok ⟨names.reverse ++ location, node, false⟩ := by
  obtain ⟨mode, entries, horigin⟩ := h.origin
  have hstart := (origin_becomes horigin).node? rfl
  rw [find_eq_ok_iff, walk_eq_ok_iff, h.segments]
  exact ⟨h.accepted, _, horigin, follow_of_arrived (advance_along_of_node? hstart hfree hnode)⟩

theorem Denotes.stat_file (h : files.Denotes path location names) (hfree : files.LinkFree location)
    (hkind : files.kind? (names.reverse ++ location) = some .file) : ∃ data, files.stat path = .ok (.file data) := by
  obtain ⟨node, hnode, hfile⟩ := kind?_eq_some_iff.1 hkind
  have hstat := stat_eq_ok_iff.2 ⟨_, h.find hfree hnode, rfl⟩
  cases node with
  | file data => exact ⟨data, hstat⟩
  | shared id => exact ⟨files.shared id, hstat⟩
  | _ => cases hfile

theorem Denotes.stat_directory (h : files.Denotes path location names) (hfree : files.LinkFree location)
    (hkind : files.kind? (names.reverse ++ location) = some .directory) :
    ∃ mode, files.stat path = .ok (.directory mode) := by
  obtain ⟨mode, entries, hnode⟩ := kind?_eq_directory_iff.1 hkind
  exact ⟨mode, stat_eq_ok_iff.2 ⟨_, h.find hfree hnode, rfl⟩⟩

end FileSystem

end ConsoleKit
