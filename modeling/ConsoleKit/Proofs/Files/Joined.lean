import ConsoleKit.Files.Lookup
import ConsoleKit.Proofs.Files.Segments
import ConsoleKit.Proofs.Files.Walking

/-!
# Walks along joined paths

What a joined path leads to, in two parts: the path leads to a directory (`Path.directory`), and from there the walk
goes on along the names (`walk_joinAll`, `walk_joinAll_eq`). In a directory below which there are no links the second
part is just a look at the tree (`walk_joinAll_place`).
-/

namespace ConsoleKit.FileSystem

open ConsoleKit.Path (Segment along)

variable {files : FileSystem} {purpose : Purpose} {path : Path} {names : List FileName} {links : Nat}

/-! ## Paths that the system accepts -/

theorem checkPath_eq_ok_iff :
    checkPath path = .ok () ↔ (0 : UInt8) ∉ path.spelling ∧ path.spelling ≠ [] ∧ path.spelling.length < pathLimit := by
  have hnul : path.spelling.any (· == 0) = true ↔ (0 : UInt8) ∈ path.spelling := by simp
  have hempty : path.isEmpty = true ↔ path.spelling = [] := by simp [Path.isEmpty]
  unfold checkPath
  by_cases h₁ : (0 : UInt8) ∈ path.spelling
  · rw [if_pos (hnul.2 h₁)]
    simp [h₁]
  rw [if_neg (fun h => h₁ (hnul.1 h))]
  by_cases h₂ : path.spelling = []
  · rw [if_pos (hempty.2 h₂)]
    simp [h₂]
  rw [if_neg (fun h => h₂ (hempty.1 h))]
  by_cases h₃ : pathLimit ≤ path.spelling.length
  · rw [if_pos h₃]
    simp only [reduceCtorEq, false_iff]
    omega
  · rw [if_neg h₃]
    simp only [true_iff]
    exact ⟨h₁, h₂, by omega⟩

theorem checkPath_of_isPrefix {path path' : Path} (h : checkPath path' = .ok ()) (hne : path.spelling ≠ [])
    (hfront : path.spelling <+: path'.spelling) : checkPath path = .ok () := by
  obtain ⟨hnul, -, hlength⟩ := checkPath_eq_ok_iff.1 h
  refine checkPath_eq_ok_iff.2 ⟨fun hmem => hnul (hfront.subset hmem), hne, ?_⟩
  have hle := hfront.length_le
  omega

theorem checkPath_directory (h : checkPath (path.joinAll names) = .ok ()) : checkPath path.directory = .ok () := by
  unfold Path.directory
  by_cases hempty : path.isEmpty
  · rw [if_pos hempty]
    rfl
  · rw [if_neg hempty]
    exact checkPath_of_isPrefix h (by simpa [Path.isEmpty] using hempty) (path.spelling_prefix_joinAll names)

theorem origin_congr {path path' : Path} (h : path'.isAbsolute = path.isAbsolute) : files.origin path' = files.origin path := by
  unfold origin
  rw [h]

theorem isAbsolute_directory (path : Path) : path.directory.isAbsolute = path.isAbsolute := by
  unfold Path.directory
  by_cases hempty : path.isEmpty
  · have hnil : path.spelling = [] := by simpa [Path.isEmpty] using hempty
    rw [if_pos hempty, Path.isAbsolute, Path.isAbsolute, hnil]
    rfl
  · rw [if_neg hempty]

theorem walk_eq_ok_iff {arrival : Arrival} :
    files.walk purpose path = .ok arrival ↔ checkPath path = .ok () ∧
      ∃ spot, files.origin path = .ok spot ∧ files.follow purpose linkLimit spot path.segments = .ok arrival := by
  unfold walk
  cases checkPath path with
  | error error => simp [bind, Except.bind]
  | ok _ =>
    cases files.origin path with
    | error error => simp [bind, Except.bind]
    | ok spot => simp [bind, Except.bind]

theorem find_eq_ok_iff {spot : Spot} : files.find path = .ok spot ↔ files.walk .find path = .ok (.found spot) := by
  unfold find
  cases files.walk .find path with
  | error error => simp [bind, Except.bind]
  | ok arrival => cases arrival <;> simp [bind, Except.bind, pure, Except.pure]

theorem stat_eq_ok_iff {entry : Entry} :
    files.stat path = .ok entry ↔ ∃ spot, files.find path = .ok spot ∧ files.entryOf spot.node = entry := by
  unfold stat
  cases files.find path with
  | error error => simp [bind, Except.bind]
  | ok spot => simp [bind, Except.bind, pure, Except.pure]

theorem find_of_walk {spot : Spot} (h : files.walk purpose path = .ok (.found spot)) : files.find path = .ok spot := by
  obtain ⟨hcheck, start, horigin, hfollow⟩ := walk_eq_ok_iff.1 h
  exact find_eq_ok_iff.2 (walk_eq_ok_iff.2 ⟨hcheck, start, horigin, follow_find hfollow⟩)

/-! ## The directory of a path -/

/-- The directory of a path is reached along its steps; one more segment may ask for it to be a directory. -/
theorem segments_directory (path : Path) :
    path.directory.segments = path.steps ∨ ∃ segment, path.directory.segments = path.steps ++ [segment] ∧
      (segment = .current ∨ segment = .trailingSlash) := by
  unfold Path.directory
  by_cases hempty : path.isEmpty
  · have hnil : path.spelling = [] := by simpa [Path.isEmpty] using hempty
    rw [if_pos hempty]
    refine .inr ⟨.current, ?_, .inl rfl⟩
    unfold Path.steps
    rw [hnil]
    rfl
  · rw [if_neg hempty, Path.segments]
    by_cases hslash : path.endsInSlash
    · rw [if_pos hslash]
      exact .inr ⟨.trailingSlash, rfl, .inr rfl⟩
    · rw [if_neg hslash]
      exact .inl rfl

/-- What the steps of a path lead to is the directory of the path. -/
theorem follow_steps {base : Spot} (h : files.find path.directory = .ok base) :
    ∃ spot, files.origin path = .ok spot ∧ files.follow .find linkLimit spot path.steps = .ok (.found base) := by
  obtain ⟨-, spot, horigin, hfollow⟩ := walk_eq_ok_iff.1 (find_eq_ok_iff.1 h)
  rw [origin_congr (isAbsolute_directory path)] at horigin
  refine ⟨spot, horigin, ?_⟩
  rcases segments_directory path with hsegments | ⟨segment, hsegments, hstay⟩
  · rwa [hsegments] at hfollow
  · rw [hsegments] at hfollow
    obtain ⟨found, links', hfound, hlast⟩ := follow_prefix (by simp) hfollow
    obtain ⟨hbase, -⟩ := (follow_stay_iff (by simpa using hstay) (by simp)).1 hlast
    cases hbase
    exact hfound

theorem not_isEmpty_of_checkPath (h : checkPath path = .ok ()) : ¬ path.isEmpty := by
  simpa [Path.isEmpty] using (checkPath_eq_ok_iff.1 h).2.1

/-- A path that leads somewhere is spelled, and is the path of its own directory. -/
theorem directory_eq_self (hempty : ¬ path.isEmpty) : path.directory = path := by
  rw [Path.directory, if_neg hempty]

theorem directory_of_find {spot : Spot} (h : files.find path = .ok spot) : path.directory = path :=
  directory_eq_self (not_isEmpty_of_checkPath (walk_eq_ok_iff.1 (find_eq_ok_iff.1 h)).1)

theorem find_directory {spot base : Spot} (hcheck : checkPath path.directory = .ok ()) (horigin : files.origin path = .ok spot)
    (hfollow : files.follow .find linkLimit spot path.steps = .ok (.found base))
    (hbase : ∃ mode entries, base.node = .directory mode entries) : files.find path.directory = .ok base := by
  rw [find_eq_ok_iff, walk_eq_ok_iff, origin_congr (isAbsolute_directory path)]
  refine ⟨hcheck, spot, horigin, ?_⟩
  rcases segments_directory path with hsegments | ⟨segment, hsegments, hstay⟩
  · rwa [hsegments]
  · obtain ⟨links', hlinks'⟩ := follow_append hfollow
    rw [hsegments, hlinks' .find [segment] (by simp) (by simp)]
    exact (follow_stay_iff (by simpa using hstay) (by simp)).2 ⟨rfl, hbase⟩

theorem along_ne_nil (h : names ≠ []) : along names ≠ [] := by
  simpa [along] using h

theorem along_ne_slash : along names ≠ [.trailingSlash] := by
  intro h
  have hmem : Segment.trailingSlash ∈ along names := by rw [h]; exact .head _
  simp [along] at hmem

/-- A walk to something below a path passes the directory of the path. -/
theorem walk_joinAll {arrival : Arrival} (hne : names ≠ []) (h : files.walk purpose (path.joinAll names) = .ok arrival) :
    ∃ base links, files.find path.directory = .ok base ∧ (∃ mode entries, base.node = .directory mode entries) ∧
      files.follow purpose links base (along names) = .ok arrival := by
  obtain ⟨hcheck, spot, horigin, hfollow⟩ := walk_eq_ok_iff.1 h
  rw [Path.segments_joinAll path hne] at hfollow
  rw [origin_congr (Path.isAbsolute_joinAll path names)] at horigin
  obtain ⟨base, links', hbase, harrival⟩ := follow_prefix (along_ne_nil hne) hfollow
  have hdirectory := follow_directory (along_ne_nil hne) harrival
  exact ⟨base, links', find_directory (checkPath_directory hcheck) horigin hbase hdirectory, hdirectory, harrival⟩

/-- What names behind a path lead to is found from the directory of the path. -/
theorem follow_of_find_joinAll {base spot : Spot} (hbase : files.find path.directory = .ok base) (hne : names ≠ [])
    (h : files.find (path.joinAll names) = .ok spot) :
    ∃ links, files.follow .find links base (along names) = .ok (.found spot) := by
  obtain ⟨base', links, hbase', -, hfollow⟩ := walk_joinAll hne (find_eq_ok_iff.1 h)
  rw [hbase, Except.ok.injEq] at hbase'
  exact ⟨links, hbase' ▸ hfollow⟩

theorem walk_joinAll_eq {base : Spot} (hne : names ≠ []) (hbase : files.find path.directory = .ok base)
    (hcheck : checkPath (path.joinAll names) = .ok ()) :
    ∃ links, ∀ purpose, files.walk purpose (path.joinAll names) = files.follow purpose links base (along names) := by
  obtain ⟨spot, horigin, hfollow⟩ := follow_steps hbase
  obtain ⟨links, hlinks⟩ := follow_append hfollow
  refine ⟨links, ?_⟩
  intro purpose
  rw [← hlinks purpose (along names) (along_ne_nil hne) (fun _ => along_ne_slash), walk, hcheck,
    origin_congr (Path.isAbsolute_joinAll path names), horigin, Path.segments_joinAll path hne]
  rfl

/-! ## Directories without links below them -/

/-- No link is below a place. -/
def LinkFree (files : FileSystem) (location : Location) : Prop :=
  ∀ names target, names ≠ [] → files.node? (names ++ location) ≠ some (.link target)

theorem LinkFree.child {location : Location} (h : files.LinkFree location) (name : FileName) :
    files.LinkFree (name :: location) := by
  intro names target _
  have hlink := h (names ++ [name]) target (by simp)
  rwa [List.append_assoc] at hlink

/-- A walk along names: it ends at the place that the names make, if something is there; or at the last name, if nothing
is there but everything before it is; or at a link. -/
theorem advance_along {location : Location} {node : Node} {stretch : Stretch} (hnode : files.node? location = some node)
    (h : files.advance purpose ⟨location, node, false⟩ (along names) = .ok stretch) :
    (∃ node', files.node? (names.reverse ++ location) = some node' ∧
        stretch = .arrived (.found ⟨names.reverse ++ location, node', false⟩)) ∨
      (∃ front name, names = front ++ [name] ∧ files.node? (names.reverse ++ location) = none ∧
        stretch = .arrived (.vacant (front.reverse ++ location) name)) ∨
      ∃ front name after directory target, names = front ++ name :: after ∧
        files.node? (name :: front.reverse ++ location) = some (.link target) ∧
        files.node? (front.reverse ++ location) = some directory ∧
        stretch = .link ⟨front.reverse ++ location, directory, false⟩ target (along after) := by
  induction names generalizing location node with
  | nil =>
    cases h
    exact .inl ⟨node, hnode, rfl⟩
  | cons name names ih =>
    have happend : (name :: names).reverse ++ location = names.reverse ++ name :: location := by simp
    have h : files.advance purpose ⟨location, node, false⟩ (.entry name.bytes :: along names) = .ok stretch := h
    rw [happend]
    rcases advance_inv h with ⟨-, ⟨next, hpasses, honward⟩ |
      ⟨_, mode, entries, piece, name', hspot, hsegment, hname', hcases⟩⟩
    · cases hpasses with
      | stay _ hsegment => simp at hsegment
      | @entry _ mode entries _ name' child hname' hlookup hlink =>
        rw [ofBytes?_bytes, Option.some.injEq] at hname'
        subst hname'
        have hchild : files.node? (name :: location) = some child := by rw [node?_cons, hnode]; exact hlookup
        rcases ih hchild honward with hfound | ⟨front, last, rfl, hnone, rfl⟩ |
          ⟨front, last, after, directory, target, rfl, hlast, hdirectory, rfl⟩
        · exact .inl hfound
        · exact .inr (.inl ⟨name :: front, last, rfl, hnone, by simp⟩)
        · refine .inr (.inr ⟨name :: front, last, after, directory, target, rfl, ?_, ?_, by simp⟩)
          · simpa using hlast
          · simpa using hdirectory
    · cases hspot
      cases hsegment
      rw [ofBytes?_bytes, Option.some.injEq] at hname'
      subst hname'
      have hchild : files.node? (name :: location) = entries.lookup name := by rw [node?_cons, hnode]; rfl
      rcases hcases with ⟨hlookup, hnil, rfl⟩ | ⟨target, hlookup, rfl⟩
      · have hnames : names = [] := by simpa [along] using hnil
        subst hnames
        exact .inr (.inl ⟨[], name, rfl, hchild.trans hlookup, rfl⟩)
      · exact .inr (.inr ⟨[], name, names, _, target, rfl, hchild.trans hlookup, hnode, rfl⟩)

/-- In a part of the tree without links a walk along names meets none. -/
theorem LinkFree.advance_along {location : Location} {node : Node} {stretch : Stretch} (hfree : files.LinkFree location)
    (hnode : files.node? location = some node)
    (h : files.advance purpose ⟨location, node, false⟩ (along names) = .ok stretch) :
    (∃ node', files.node? (names.reverse ++ location) = some node' ∧
        stretch = .arrived (.found ⟨names.reverse ++ location, node', false⟩)) ∨
      ∃ front name, names = front ++ [name] ∧ files.node? (names.reverse ++ location) = none ∧
        stretch = .arrived (.vacant (front.reverse ++ location) name) := by
  rcases FileSystem.advance_along hnode h with hfound | hvacant | ⟨front, name, _, _, target, -, hlink, -⟩
  · exact .inl hfound
  · exact .inr hvacant
  · exact absurd hlink (hfree (name :: front.reverse) target (by simp))

theorem advance_along_of_node? {location : Location} {node node' : Node} (hnode : files.node? location = some node)
    (hfree : files.LinkFree location)
    (hnode' : files.node? (names.reverse ++ location) = some node') :
    files.advance purpose ⟨location, node, false⟩ (along names) =
      .ok (.arrived (.found ⟨names.reverse ++ location, node', false⟩)) := by
  induction names generalizing location node with
  | nil =>
    have heq : node = node' := Option.some.inj (hnode.symm.trans hnode')
    rw [heq]
    rfl
  | cons name names ih =>
    have halong : along (name :: names) = .entry name.bytes :: along names := rfl
    have happend : (name :: names).reverse ++ location = names.reverse ++ name :: location := by simp
    rw [happend] at hnode' ⊢
    obtain ⟨child, hchild⟩ : ∃ child, files.node? (name :: location) = some child := by
      rw [node?, Node.at?_append] at hnode'
      obtain ⟨child, hchild, -⟩ := Option.bind_eq_some_iff.1 hnode'
      exact ⟨child, hchild⟩
    obtain ⟨mode, entries, rfl⟩ : ∃ mode entries, node = .directory mode entries := by
      rw [node?_cons, hnode] at hchild
      cases node with
      | directory mode entries => exact ⟨mode, entries, rfl⟩
      | _ => simp [Node.child?] at hchild
    have hlookup : entries.lookup name = some child := by
      rw [node?_cons, hnode] at hchild
      exact hchild
    have hlink : ∀ target, child ≠ .link target := by
      rintro target rfl
      exact hfree [name] target (by simp) hchild
    rw [halong, advance_passes (.entry (ofBytes?_bytes name) hlookup hlink) fun h => along_ne_slash h.2.1]
    exact ih hchild (hfree.child name) hnode'

/-- No link is below what a path leads to. -/
def LinkFreeBelow (files : FileSystem) (path : Path) : Prop :=
  ∀ base, files.find path.directory = .ok base → base.removed = false →
    files.node? base.location = some base.node ∧ files.LinkFree base.location

/-- In a directory without links below it, the place to which names lead is the place that they make. -/
theorem walk_joinAll_place {arrival : Arrival} (hfree : files.LinkFreeBelow path) (hne : names ≠ [])
    (h : files.walk purpose (path.joinAll names) = .ok arrival) :
    ∃ base, files.find path.directory = .ok base ∧ base.removed = false ∧
      ((∃ node, files.node? (names.reverse ++ base.location) = some node ∧
          arrival = .found ⟨names.reverse ++ base.location, node, false⟩) ∨
        ∃ directory name, names.reverse ++ base.location = name :: directory ∧
          files.node? (names.reverse ++ base.location) = none ∧ arrival = .vacant directory name) := by
  obtain ⟨⟨location, node, removed⟩, links, hbase, -, hfollow⟩ := walk_joinAll hne h
  have hstretch : ∃ stretch, files.advance purpose ⟨location, node, removed⟩ (along names) = .ok stretch := by
    rcases follow_inv hfollow with hadvance | ⟨_, _, _, _, _, hadvance, _⟩
    · exact ⟨_, hadvance⟩
    · exact ⟨_, hadvance⟩
  obtain ⟨stretch, hstretch⟩ := hstretch
  have hremoved : removed = false := by
    obtain ⟨name, rest, rfl⟩ := List.exists_cons_of_ne_nil hne
    have hentry : files.advance purpose ⟨location, node, removed⟩ (.entry name.bytes :: along rest) = .ok stretch := hstretch
    rcases advance_inv hentry with ⟨-, ⟨next, hpasses, -⟩ | ⟨_, _, _, _, _, hspot, -⟩⟩
    · cases hpasses with
      | stay _ hsegment => simp at hsegment
      | entry => rfl
    · cases hspot
      rfl
  subst hremoved
  obtain ⟨hnode, hlinks⟩ := hfree _ hbase rfl
  refine ⟨_, hbase, rfl, ?_⟩
  rcases hlinks.advance_along hnode hstretch with ⟨node', hnode', rfl⟩ | ⟨front, name, rfl, hnone, rfl⟩
  · rw [follow_of_arrived hstretch, Except.ok.injEq] at hfollow
    exact .inl ⟨node', hnode', hfollow.symm⟩
  · rw [follow_of_arrived hstretch, Except.ok.injEq] at hfollow
    exact .inr ⟨_, name, by simp, hnone, hfollow.symm⟩

/-- What is below a directory without links is where its path leads, if the system accepts the path. -/
theorem find_joinAll_of_node? {base : Spot} {node : Node} (hfree : files.LinkFreeBelow path)
    (hbase : files.find path.directory = .ok base) (hlive : base.removed = false)
    (hcheck : checkPath (path.joinAll names) = .ok ()) (hne : names ≠ [])
    (hnode : files.node? (names.reverse ++ base.location) = some node) :
    files.find (path.joinAll names) = .ok ⟨names.reverse ++ base.location, node, false⟩ := by
  obtain ⟨links, hlinks⟩ := walk_joinAll_eq hne hbase hcheck
  obtain ⟨hroot, hlinkfree⟩ := hfree base hbase hlive
  obtain ⟨location, root, removed⟩ := base
  cases hlive
  rw [find_eq_ok_iff, hlinks]
  exact follow_of_arrived (advance_along_of_node? hroot hlinkfree hnode)

/-- What a path leads to along names has its place below what the path leads to without them. -/
theorem find_joinAll_place {spot : Spot} (hfree : files.LinkFreeBelow path) (hlive : spot.removed = false)
    (h : files.find (path.joinAll names) = .ok spot) : ∃ base, files.find path.directory = .ok base ∧
      base.removed = false ∧ spot.location = names.reverse ++ base.location := by
  by_cases hne : names = []
  · subst hne
    rw [Path.joinAll_nil] at h
    exact ⟨spot, (directory_of_find h).symm ▸ h, hlive, rfl⟩
  · obtain ⟨base, hbase, hbaselive, ⟨_, -, harrival⟩ | ⟨_, _, -, -, harrival⟩⟩ :=
      walk_joinAll_place hfree hne (find_eq_ok_iff.1 h)
    · cases harrival
      exact ⟨base, hbase, hbaselive, rfl⟩
    · cases harrival

/-- Below a directory of the tree, names lead to the place that they make. -/
theorem find_joinAll_inv {base spot : Spot} (hfree : files.LinkFreeBelow path) (hbase : files.find path.directory = .ok base)
    (hlive : base.removed = false) (h : files.find (path.joinAll names) = .ok spot) :
    ∃ node, files.node? (names.reverse ++ base.location) = some node ∧ spot = ⟨names.reverse ++ base.location, node, false⟩ := by
  by_cases hne : names = []
  · subst hne
    rw [Path.joinAll_nil] at h
    rw [directory_of_find h, h, Except.ok.injEq] at hbase
    subst hbase
    obtain ⟨hnode, -⟩ := hfree spot ((directory_of_find h).symm ▸ h) hlive
    obtain ⟨location, node, removed⟩ := spot
    cases hlive
    exact ⟨node, hnode, rfl⟩
  · obtain ⟨base', hbase', -, ⟨node, hnode, harrival⟩ | ⟨_, _, -, -, harrival⟩⟩ :=
      walk_joinAll_place hfree hne (find_eq_ok_iff.1 h)
    · rw [hbase, Except.ok.injEq] at hbase'
      subst hbase'
      cases harrival
      exact ⟨node, hnode, rfl⟩
    · cases harrival

end ConsoleKit.FileSystem
