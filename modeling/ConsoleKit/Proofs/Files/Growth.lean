import ConsoleKit.Files.Lookup
import ConsoleKit.Proofs.Files.Joined

/-!
# File systems that grow

Making directories and copying files only adds to a file system: what is there stays, and stays what it is, except
that a regular file may get other data. `Grows` says so place by place, looking at each node without its entries
(`bare?`). The main result is that a walk that finds something finds the same place in every file system that has
grown from the first (`find_grows`), whatever links it follows.
-/

namespace ConsoleKit

/-- What a node without entries may turn into: a regular file gets other data, anything else stays. -/
inductive Node.Kept : Node → Node → Prop where
  | same (node : Node) : Kept node node
  | file (data data' : FileData) : Kept (.file data) (.file data')

theorem Node.Kept.trans {a b c : Node} (hab : a.Kept b) (hbc : b.Kept c) : a.Kept c := by
  cases hab with
  | same => exact hbc
  | file data data' =>
    cases hbc with
    | same => exact .file _ _
    | file => exact .file _ _

/-- What an entry may turn into: a regular file gets other data, anything else stays. -/
inductive Entry.Kept : Entry → Entry → Prop where
  | same (entry : Entry) : Kept entry entry
  | file (data data' : FileData) : Kept (.file data) (.file data')

namespace FileSystem

/-- The node at a place, without its entries. -/
def bare? (files : FileSystem) (place : Location) : Option Node :=
  (files.node? place).map Node.bare

theorem bare?_eq_some_iff {files : FileSystem} {place : Location} {node : Node} :
    files.bare? place = some node ↔ ∃ full, files.node? place = some full ∧ full.bare = node := by
  unfold bare?
  rw [Option.map_eq_some_iff]

theorem bare?_eq_none_iff {files : FileSystem} {place : Location} :
    files.bare? place = none ↔ files.node? place = none := by
  unfold bare?
  rw [Option.map_eq_none_iff]

theorem bare?_of_node? {files : FileSystem} {place : Location} {node : Node} (h : files.node? place = some node) :
    files.bare? place = some node.bare := by
  unfold bare?
  rw [h, Option.map_some]

/-- Every node of one file system is kept in another, and relative paths begin at the same place. -/
structure Grows (files files' : FileSystem) : Prop where
  workingDirectory : files'.workingDirectory = files.workingDirectory
  kept : ∀ place node, files.bare? place = some node → ∃ node', files'.bare? place = some node' ∧ node.Kept node'

theorem Grows.refl (files : FileSystem) : Grows files files :=
  ⟨rfl, fun _ node h => ⟨node, h, .same node⟩⟩

theorem Grows.trans {a b c : FileSystem} (hab : Grows a b) (hbc : Grows b c) : Grows a c := by
  refine ⟨hbc.workingDirectory.trans hab.workingDirectory, ?_⟩
  intro place node h
  obtain ⟨node', hnode', hkept⟩ := hab.kept place node h
  obtain ⟨node'', hnode'', hkept'⟩ := hbc.kept place node' hnode'
  exact ⟨node'', hnode'', hkept.trans hkept'⟩

section Grows

variable {files files' : FileSystem}

theorem Grows.bare?_eq_none (h : Grows files files') {place : Location} (hnone : files'.bare? place = none) :
    files.bare? place = none := by
  cases hbare : files.bare? place with
  | none => rfl
  | some node =>
    obtain ⟨node', hbare', -⟩ := h.kept place node hbare
    rw [hnone] at hbare'
    cases hbare'

theorem Grows.directory (h : Grows files files') {place : Location} {mode : Mode} {entries : List (FileName × Node)}
    (hnode : files.node? place = some (.directory mode entries)) :
    ∃ entries', files'.node? place = some (.directory mode entries') := by
  obtain ⟨node', hbare, hkept⟩ := h.kept place _ (bare?_of_node? hnode)
  obtain ⟨full, hfull, rfl⟩ := bare?_eq_some_iff.1 hbare
  cases full with
  | directory mode' entries' =>
    cases hkept
    exact ⟨entries', hfull⟩
  | _ => cases hkept

theorem Grows.link (h : Grows files files') {place : Location} {target : Path}
    (hnode : files.node? place = some (.link target)) : files'.node? place = some (.link target) := by
  obtain ⟨node', hbare, hkept⟩ := h.kept place _ (bare?_of_node? hnode)
  obtain ⟨full, hfull, rfl⟩ := bare?_eq_some_iff.1 hbare
  cases full <;> cases hkept
  exact hfull

theorem Grows.notLink (h : Grows files files') {place : Location} {node : Node}
    (hnode : files.node? place = some node) (hlink : ∀ target, node ≠ .link target) :
    ∃ node', files'.node? place = some node' ∧ (∀ target, node' ≠ .link target) ∧ node.bare.Kept node'.bare := by
  obtain ⟨node', hbare, hkept⟩ := h.kept place _ (bare?_of_node? hnode)
  obtain ⟨full, hfull, rfl⟩ := bare?_eq_some_iff.1 hbare
  refine ⟨full, hfull, ?_, hkept⟩
  rintro target rfl
  cases node <;> cases hkept
  exact hlink target rfl

theorem Grows.node? (h : Grows files files') {place : Location} {node : Node} (hnode : files.node? place = some node) :
    ∃ node', files'.node? place = some node' := by
  obtain ⟨node', hbare, -⟩ := h.kept place _ (bare?_of_node? hnode)
  obtain ⟨full, hfull, -⟩ := bare?_eq_some_iff.1 hbare
  exact ⟨full, hfull⟩

/-! ## Spots in two file systems -/

/-- A spot and what it has become: the same place, with the node that is there now, or the same removed directory. -/
inductive Spot.Becomes (files files' : FileSystem) : Spot → Spot → Prop where
  | live {location : Location} {node node' : Node} (h : files.node? location = some node)
      (h' : files'.node? location = some node') : Becomes files files' ⟨location, node, false⟩ ⟨location, node', false⟩
  | removed (location : Location) (mode : Mode) :
      Becomes files files' ⟨location, .directory mode [], true⟩ ⟨location, .directory mode [], true⟩

theorem Spot.Becomes.location_eq {spot spot' : Spot} (h : Spot.Becomes files files' spot spot') :
    spot'.location = spot.location := by
  cases h <;> rfl

theorem Spot.Becomes.removed_eq {spot spot' : Spot} (h : Spot.Becomes files files' spot spot') :
    spot'.removed = spot.removed := by
  cases h <;> rfl

theorem Spot.Becomes.self {spot spot' : Spot} (h : Spot.Becomes files files' spot spot') :
    Spot.Becomes files files spot spot := by
  cases h with
  | live hlive _ => exact .live hlive hlive
  | removed location mode => exact .removed location mode

theorem Spot.Becomes.node? {spot : Spot} (h : Spot.Becomes files files spot spot) (hlive : spot.removed = false) :
    files.node? spot.location = some spot.node := by
  cases h with
  | live hnode _ => exact hnode
  | removed => cases hlive

theorem Spot.Becomes.directory (h : Grows files files') {spot spot' : Spot} (hs : Spot.Becomes files files' spot spot')
    {mode : Mode} {entries : List (FileName × Node)} (hnode : spot.node = .directory mode entries) :
    ∃ entries', spot'.node = .directory mode entries' := by
  cases hs with
  | live hlive hlive' =>
    subst hnode
    obtain ⟨entries', hentries'⟩ := h.directory hlive
    rw [hlive', Option.some.injEq] at hentries'
    exact ⟨entries', hentries'⟩
  | removed location mode' =>
    cases hnode
    exact ⟨[], rfl⟩

/-- A file with several names was one before. -/
theorem Spot.Becomes.shared (h : Grows files files') {spot spot' : Spot} (hs : Spot.Becomes files files' spot spot')
    {id : FileId} (hnode : spot'.node = .shared id) : spot.node = .shared id := by
  cases hs with
  | @live location node node' hlive hlive' =>
    obtain ⟨bare, hbare, hkept⟩ := h.kept location _ (bare?_of_node? hlive)
    subst hnode
    rw [bare?_of_node? hlive', Option.some.injEq] at hbare
    subst hbare
    generalize hold : node.bare = old at hkept
    cases hkept
    cases node <;> cases hold
    rfl
  | removed location mode => cases hnode

/-- The same stretch in two file systems, if it does not end where nothing is. -/
inductive Stretch.Becomes (files files' : FileSystem) : Stretch → Stretch → Prop where
  | found {spot spot' : Spot} (h : Spot.Becomes files files' spot spot') :
      Becomes files files' (.arrived (.found spot)) (.arrived (.found spot'))
  | link {spot spot' : Spot} (target : Path) (rest : List Path.Segment) (h : Spot.Becomes files files' spot spot') :
      Becomes files files' (.link spot target rest) (.link spot' target rest)

theorem parentSpot_grows (h : Grows files files') {spot spot' parent : Spot} (hs : Spot.Becomes files files' spot spot')
    (hparent : files.parentSpot spot = .ok parent) :
    ∃ parent', files'.parentSpot spot' = .ok parent' ∧ Spot.Becomes files files' parent parent' := by
  unfold parentSpot at hparent
  cases hnode : files.node? spot.location.tail with
  | none => simp [hnode] at hparent
  | some node =>
    obtain ⟨node', hnode'⟩ := h.node? hnode
    rw [hnode] at hparent
    cases hparent
    unfold parentSpot
    rw [hs.location_eq, hnode']
    exact ⟨_, rfl, .live hnode hnode'⟩

theorem Passes.becomes (h : Grows files files') {spot spot' next : Spot} {segment : Path.Segment}
    (hs : Spot.Becomes files files' spot spot') (hpasses : files.Passes spot segment next) :
    ∃ next', files'.Passes spot' segment next' ∧ Spot.Becomes files files' next next' := by
  cases hpasses with
  | stay hnode hsegment =>
    obtain ⟨entries', hnode'⟩ := hs.directory h hnode
    exact ⟨spot', .stay hnode' hsegment, hs⟩
  | parent hnode hparent =>
    obtain ⟨entries', hnode'⟩ := hs.directory h hnode
    obtain ⟨parent', hparent', hbecomes⟩ := parentSpot_grows h hs hparent
    exact ⟨parent', .parent hnode' hparent', hbecomes⟩
  | @entry location mode entries piece name child hname hlookup hlink =>
    cases hs with
    | live hlive hlive' =>
      have hchild : files.node? (name :: location) = some child := by rw [node?_cons, hlive]; exact hlookup
      obtain ⟨entries', hentries'⟩ := h.directory hlive
      obtain ⟨child', hchild', hlink', -⟩ := h.notLink hchild hlink
      rw [hlive', Option.some.injEq] at hentries'
      subst hentries'
      have hlookup' : entries'.lookup name = some child' := by
        rw [node?_cons, hlive'] at hchild'
        exact hchild'
      exact ⟨_, .entry hname hlookup' hlink', .live hchild hchild'⟩

/-- A stretch stays what it is, unless it ends where nothing is. The induction is on the segments: what is passed is
still passed, and a link is still the same link. -/
theorem advance_grows (h : Grows files files') {purpose : Purpose} {spot spot' : Spot} {segments : List Path.Segment}
    {stretch : Stretch} (hs : Spot.Becomes files files' spot spot')
    (hstretch : files.advance purpose spot segments = .ok stretch) :
    (∃ directory name, stretch = .arrived (.vacant directory name)) ∨
      ∃ stretch', files'.advance purpose spot' segments = .ok stretch' ∧ Stretch.Becomes files files' stretch stretch' := by
  induction segments generalizing spot spot' with
  | nil =>
    cases hstretch
    exact .inr ⟨_, rfl, .found hs⟩
  | cons segment rest ih =>
    rcases advance_inv hstretch with ⟨hrefused, ⟨next, hpasses, honward⟩ |
      ⟨location, mode, entries, piece, name, rfl, rfl, hname, ⟨-, -, rfl⟩ | ⟨target, hlookup, rfl⟩⟩⟩
    · obtain ⟨next', hpasses', hnext⟩ := hpasses.becomes h hs
      rw [advance_passes hpasses' hrefused]
      exact ih hnext honward
    · exact .inl ⟨location, name, rfl⟩
    · cases hs with
      | live hlive hlive' =>
        have hchild : files.node? (name :: location) = some (.link target) := by
          rw [node?_cons, hlive]
          exact hlookup
        obtain ⟨entries', hentries'⟩ := h.directory hlive
        rw [hlive', Option.some.injEq] at hentries'
        subst hentries'
        have hlookup' : entries'.lookup name = some (.link target) := by
          have hchild' := h.link hchild
          rw [node?_cons, hlive'] at hchild'
          exact hchild'
        exact .inr ⟨_, advance_link hrefused hname hlookup', .link target rest (.live hlive hlive')⟩

theorem startSpot_becomes {directory directory' : Spot}
    (hs : Spot.Becomes files files' directory directory') (path : Path) :
    Spot.Becomes files files' (files.startSpot directory path) (files'.startSpot directory' path) := by
  unfold startSpot
  split
  · exact .live rfl rfl
  · exact hs

/-- A walk that finds something finds it again, after following as many links. -/
theorem follow_grows (h : Grows files files') {purpose : Purpose} {links : Nat} {spot spot' found : Spot}
    {segments : List Path.Segment} (hs : Spot.Becomes files files' spot spot')
    (hfollow : files.follow purpose links spot segments = .ok (.found found)) :
    ∃ found', files'.follow purpose links spot' segments = .ok (.found found') ∧
      Spot.Becomes files files' found found' := by
  induction links generalizing spot spot' segments with
  | zero =>
    rcases follow_inv hfollow with hadvance | ⟨_, _, _, _, hlinks, _, _⟩
    · rcases advance_grows h hs hadvance with ⟨_, _, hvacant⟩ | ⟨_, hstretch', hfound⟩
      · cases hvacant
      · cases hfound with
        | found hfound => exact ⟨_, follow_of_arrived hstretch', hfound⟩
    · cases hlinks
  | succ links ih =>
    rcases follow_inv hfollow with hadvance | ⟨_, _, target, rest, hlinks, hadvance, honward⟩
    · rcases advance_grows h hs hadvance with ⟨_, _, hvacant⟩ | ⟨_, hstretch', hfound⟩
      · cases hvacant
      · cases hfound with
        | found hfound => exact ⟨_, follow_of_arrived hstretch', hfound⟩
    · cases hlinks
      rcases advance_grows h hs hadvance with ⟨_, _, hvacant⟩ | ⟨_, hstretch', hlink⟩
      · cases hvacant
      · cases hlink with
        | link target rest hdirectory =>
          rw [follow_of_link hstretch']
          exact ih (startSpot_becomes hdirectory target) honward

theorem origin_grows (h : Grows files files') {path : Path} {spot : Spot} (horigin : files.origin path = .ok spot) :
    ∃ spot', files'.origin path = .ok spot' ∧ Spot.Becomes files files' spot spot' := by
  rw [origin] at horigin ⊢
  split
  · rename_i habsolute
    rw [if_pos habsolute] at horigin
    cases horigin
    exact ⟨_, rfl, .live rfl rfl⟩
  · rename_i habsolute
    rw [if_neg habsolute] at horigin
    rw [h.workingDirectory]
    cases hdirectory : files.workingDirectory with
    | within location =>
      rw [hdirectory] at horigin
      simp only at horigin ⊢
      cases hnode : files.node? location with
      | none => simp [hnode] at horigin
      | some node =>
        obtain ⟨node', hnode'⟩ := h.node? hnode
        rw [hnode] at horigin
        cases horigin
        rw [hnode']
        exact ⟨_, rfl, .live hnode hnode'⟩
    | removed location mode =>
      rw [hdirectory] at horigin
      cases horigin
      exact ⟨_, rfl, .removed location mode⟩

theorem origin_becomes {path : Path} {spot : Spot} (horigin : files.origin path = .ok spot) :
    Spot.Becomes files files spot spot := by
  obtain ⟨spot', horigin', hsame⟩ := origin_grows (Grows.refl files) horigin
  rw [horigin, Except.ok.injEq] at horigin'
  exact horigin' ▸ hsame

/-- A path that leads somewhere still leads there when the file system has grown. -/
theorem find_grows (h : Grows files files') {path : Path} {spot : Spot} (hfind : files.find path = .ok spot) :
    ∃ spot', files'.find path = .ok spot' ∧ Spot.Becomes files files' spot spot' := by
  obtain ⟨hcheck, start, horigin, hfollow⟩ := walk_eq_ok_iff.1 (find_eq_ok_iff.1 hfind)
  obtain ⟨start', horigin', hstart⟩ := origin_grows h horigin
  obtain ⟨found', hfollow', hfound⟩ := follow_grows h hstart hfollow
  exact ⟨found', find_eq_ok_iff.2 (walk_eq_ok_iff.2 ⟨hcheck, start', horigin', hfollow'⟩), hfound⟩

/-- What a path leads to is in the tree, or is the working directory that was taken out of it. -/
theorem find_becomes {path : Path} {spot : Spot} (hfind : files.find path = .ok spot) :
    Spot.Becomes files files spot spot := by
  obtain ⟨spot', hfind', hsame⟩ := find_grows (Grows.refl files) hfind
  rw [hfind, Except.ok.injEq] at hfind'
  exact hfind' ▸ hsame

end Grows

end FileSystem

end ConsoleKit
