import ConsoleKit.Files.Extensionality
import ConsoleKit.Proofs.Files.Growth

/-!
# Looking at files

What a path leads to, as the calls that only look see it. Regular files are told apart by their references: a path that
leads to a file leads to the same file when the file system has grown (`ReadsFile.grows`), and a path that leads to a
directory still does (`stat_directory_grows`).
-/

namespace ConsoleKit.FileSystem

variable {files files' : FileSystem} {path : Path} {ref : FileRef} {data : FileData}

/-! ## Paths that lead somewhere -/

/-- Something is at a path, links followed. -/
def Leads (files : FileSystem) (path : Path) : Prop :=
  ∃ spot, files.find path = .ok spot

theorem Leads.grows (h : files.Leads path) (hgrows : Grows files files') : files'.Leads path := by
  obtain ⟨spot, hfind⟩ := h
  obtain ⟨spot', hfind', -⟩ := find_grows hgrows hfind
  exact ⟨spot', hfind'⟩

theorem contains_eq_true_iff : files.contains path = true ↔ files.Leads path := by
  unfold contains Leads
  cases files.find path <;> simp

theorem leads_of_stat {entry : Entry} (h : files.stat path = .ok entry) : files.Leads path := by
  obtain ⟨spot, hfind, -⟩ := stat_eq_ok_iff.1 h
  exact ⟨spot, hfind⟩

theorem stat_directory_iff {mode : Mode} : files.stat path = .ok (.directory mode) ↔
    ∃ spot entries, files.find path = .ok spot ∧ spot.node = .directory mode entries := by
  rw [stat_eq_ok_iff]
  constructor
  · rintro ⟨⟨location, node, removed⟩, hfind, hentry⟩
    cases node <;> cases hentry
    exact ⟨_, _, hfind, rfl⟩
  · rintro ⟨spot, entries, hfind, hnode⟩
    exact ⟨spot, hfind, by rw [hnode, entryOf]⟩

theorem stat_directory_grows {mode : Mode} (h : files.stat path = .ok (.directory mode)) (hgrows : Grows files files') :
    files'.stat path = .ok (.directory mode) := by
  obtain ⟨spot, entries, hfind, hnode⟩ := stat_directory_iff.1 h
  obtain ⟨spot', hfind', hspot⟩ := find_grows hgrows hfind
  obtain ⟨entries', hnode'⟩ := hspot.directory hgrows hnode
  exact stat_directory_iff.2 ⟨spot', entries', hfind', hnode'⟩

/-- Where something else was there is no directory either when the file system has grown. -/
theorem stat_directory_of_grows {mode : Mode} (h : files'.stat path = .ok (.directory mode)) (hgrows : Grows files files')
    (hleads : files.Leads path) : files.stat path = .ok (.directory mode) := by
  obtain ⟨spot', entries', hfind', hnode'⟩ := stat_directory_iff.1 h
  obtain ⟨spot, hfind⟩ := hleads
  obtain ⟨spot'', hfind'', hspot⟩ := find_grows hgrows hfind
  rw [hfind', Except.ok.injEq] at hfind''
  subst hfind''
  cases hspot with
  | @live location node _ hlive hlive' =>
    obtain ⟨bare', hbare', hkept⟩ := hgrows.kept location _ (bare?_of_node? hlive)
    rw [bare?_of_node? hlive', Option.some.injEq] at hbare'
    subst hbare'
    cases hnode'
    cases node <;> cases hkept
    exact stat_directory_iff.2 ⟨_, _, hfind, rfl⟩
  | removed location mode' =>
    cases hnode'
    exact stat_directory_iff.2 ⟨_, _, hfind, rfl⟩

/-- A name that leads somewhere from a directory is listed. -/
theorem mem_list_of_follow {name : FileName} {listed : List FileName} {spot found : Spot} {links : Nat}
    {rest : List Path.Segment} (hfind : files.find path = .ok spot) (hlist : files.list path = .ok listed)
    (hfollow : files.follow .find links spot (.entry name.bytes :: rest) = .ok (.found found)) : name ∈ listed := by
  have hentry : ∃ location mode entries child, spot = ⟨location, .directory mode entries, false⟩ ∧
      entries.lookup name = some child := by
    rcases follow_found_cons hfollow with ⟨next, hpasses⟩ | ⟨_, _, _, _, name', target, rfl, hsegment, hname, hlookup⟩
    · cases hpasses with
      | stay _ hsegment => simp at hsegment
      | entry hname hlookup _ =>
        rw [ofBytes?_bytes, Option.some.injEq] at hname
        exact ⟨_, _, _, _, rfl, hname ▸ hlookup⟩
    · cases hsegment
      rw [ofBytes?_bytes, Option.some.injEq] at hname
      exact ⟨_, _, _, _, rfl, hname ▸ hlookup⟩
  obtain ⟨location, mode, entries, child, rfl, hlookup⟩ := hentry
  unfold list at hlist
  simp only [hfind, bind, Except.bind, pure, Except.pure, Except.ok.injEq] at hlist
  rw [← hlist]
  exact List.mem_map_of_mem (f := Prod.fst) (Node.mem_of_lookup_eq_some hlookup)

theorem mem_list {name : FileName} {names listed : List FileName} (h : files.Leads (path.joinAll (name :: names)))
    (hlist : files.list path = .ok listed) : name ∈ listed := by
  obtain ⟨spot, hfind⟩ := h
  obtain ⟨base, links, hbase, -, hfollow⟩ := walk_joinAll (by simp) (find_eq_ok_iff.1 hfind)
  cases hpath : files.find path with
  | error error => simp [list, hpath, bind, Except.bind] at hlist
  | ok spot' =>
    rw [directory_of_find hpath, hpath, Except.ok.injEq] at hbase
    subst hbase
    exact mem_list_of_follow hpath hlist hfollow

/-- What is below a path is in a directory, also if a file is still to be created. -/
theorem stat_directory_of_walk {purpose : Purpose} {arrival : Arrival} {names : List FileName} (hne : names ≠ [])
    (h : files.walk purpose (path.joinAll names) = .ok arrival) : ∃ mode, files.stat path.directory = .ok (.directory mode) := by
  obtain ⟨base, links, hbase, ⟨mode, entries, hnode⟩, -⟩ := walk_joinAll hne h
  exact ⟨mode, stat_directory_iff.2 ⟨base, entries, hbase, hnode⟩⟩

theorem stat_of_joinAll {names : List FileName} (hempty : ¬ path.isEmpty) (hne : names ≠ [])
    (h : files.Leads (path.joinAll names)) : ∃ mode, files.stat path = .ok (.directory mode) := by
  obtain ⟨spot, hfind⟩ := h
  have hstat := stat_directory_of_walk hne (find_eq_ok_iff.1 hfind)
  rwa [directory_eq_self hempty] at hstat

/-! ## Regular files and their data -/

/-- The data of a file. A place may hold no file, whereas there are data for every identifier. -/
def dataOf? (files : FileSystem) : FileRef → Option FileData
  | .own location =>
    match files.node? location with
    | some (.file data) => some data
    | _ => none
  | .shared id => some (files.shared id)

/-- A path leads to a regular file, links followed. -/
def ReadsFile (files : FileSystem) (path : Path) (ref : FileRef) (data : FileData) : Prop :=
  ∃ spot, files.find path = .ok spot ∧ files.regular? spot.location spot.node = some (ref, data)

theorem dataOf?_own {location : Location} :
    files.dataOf? (.own location) = some data ↔ files.node? location = some (.file data) := by
  rw [dataOf?]
  split
  · rename_i data' h
    rw [h]
    simp
  · rename_i h
    constructor
    · intro hnone
      cases hnone
    · intro hfile
      exact absurd hfile (h data)

theorem bare?_eq_file_iff {place : Location} :
    files.bare? place = some (.file data) ↔ files.node? place = some (.file data) := by
  rw [bare?_eq_some_iff]
  constructor
  · rintro ⟨node, hnode, hbare⟩
    cases node <;> cases hbare
    exact hnode
  · intro hnode
    exact ⟨_, hnode, rfl⟩

theorem regular?_eq_some {location : Location} {node : Node} (h : files.regular? location node = some (ref, data)) :
    node = .file data ∧ ref = .own location ∨ ∃ id, node = .shared id ∧ ref = .shared id ∧ data = files.shared id := by
  cases node with
  | file data' =>
    cases h
    exact .inl ⟨rfl, rfl⟩
  | shared id =>
    cases h
    exact .inr ⟨id, rfl, rfl, rfl⟩
  | _ => cases h

theorem ReadsFile.dataOf? (h : files.ReadsFile path ref data) : files.dataOf? ref = some data := by
  obtain ⟨spot, hfind, hregular⟩ := h
  have hlive := find_becomes hfind
  rcases regular?_eq_some hregular with ⟨hnode, rfl⟩ | ⟨id, -, rfl, rfl⟩
  · cases hlive with
    | live hlive _ => exact dataOf?_own.2 (hnode ▸ hlive)
    | removed location mode => cases hnode
  · rfl

theorem ReadsFile.unique {ref' : FileRef} {data' : FileData} (h : files.ReadsFile path ref data)
    (h' : files.ReadsFile path ref' data') : ref' = ref ∧ data' = data := by
  obtain ⟨spot, hfind, hregular⟩ := h
  obtain ⟨spot', hfind', hregular'⟩ := h'
  rw [hfind, Except.ok.injEq] at hfind'
  subst hfind'
  rw [hregular, Option.some.injEq, Prod.mk.injEq] at hregular'
  exact ⟨hregular'.1.symm, hregular'.2.symm⟩

/-- A path leads to a file if and only if looking at it shows the data of the file. -/
theorem stat_eq_file_iff : files.stat path = .ok (.file data) ↔ ∃ ref, files.ReadsFile path ref data := by
  rw [stat_eq_ok_iff]
  constructor
  · rintro ⟨⟨location, node, removed⟩, hfind, hentry⟩
    cases node <;> cases hentry
    · exact ⟨.own location, _, hfind, rfl⟩
    · exact ⟨.shared _, _, hfind, rfl⟩
  · rintro ⟨ref, spot, hfind, hregular⟩
    refine ⟨spot, hfind, ?_⟩
    rcases regular?_eq_some hregular with ⟨hnode, -⟩ | ⟨id, hnode, -, rfl⟩
    · rw [hnode, entryOf]
    · rw [hnode, entryOf]

theorem ReadsFile.grows (h : files.ReadsFile path ref data) (hgrows : Grows files files') :
    ∃ data', files'.ReadsFile path ref data' := by
  obtain ⟨spot, hfind, hregular⟩ := h
  obtain ⟨spot', hfind', hspot⟩ := find_grows hgrows hfind
  cases hspot with
  | @live location node node' hlive hlive' =>
    obtain ⟨bare', hbare', hkept⟩ := hgrows.kept location _ (bare?_of_node? hlive)
    rw [bare?_of_node? hlive', Option.some.injEq] at hbare'
    subst hbare'
    rcases regular?_eq_some hregular with ⟨rfl, rfl⟩ | ⟨id, rfl, rfl, -⟩
    · cases node' <;> cases hkept
      · exact ⟨_, _, hfind', rfl⟩
      · exact ⟨_, _, hfind', rfl⟩
    · cases node' <;> cases hkept
      exact ⟨_, _, hfind', rfl⟩
  | removed location mode => cases hregular

/-- A regular file stays one when the file system has grown, perhaps with other data. -/
theorem dataOf?_grows (h : files.dataOf? ref = some data) (hgrows : Grows files files') :
    ∃ data', files'.dataOf? ref = some data' := by
  cases ref with
  | own location =>
    obtain ⟨node', hnode', hkept⟩ := hgrows.kept location _ (bare?_of_node? (dataOf?_own.1 h))
    cases hkept with
    | same => exact ⟨data, dataOf?_own.2 (bare?_eq_file_iff.1 hnode')⟩
    | file _ data' => exact ⟨data', dataOf?_own.2 (bare?_eq_file_iff.1 hnode')⟩
  | shared id => exact ⟨_, rfl⟩

/-- What is read at a path is what the file holds to which it leads, now as before. -/
theorem ReadsFile.of_dataOf? {data' : FileData} (h : files.ReadsFile path ref data) (hgrows : Grows files files')
    (hdata : files'.dataOf? ref = some data') : files'.ReadsFile path ref data' := by
  obtain ⟨data'', hreads⟩ := h.grows hgrows
  rw [hreads.dataOf?, Option.some.injEq] at hdata
  exact hdata ▸ hreads

/-- A path that leads to a device never leads to a file. -/
theorem not_readsFile_of_device {spot : Spot} (hfind : files.find path = .ok spot) (hnode : spot.node = .device)
    (hgrows : Grows files files') : ¬ files'.ReadsFile path ref data := by
  rintro ⟨spot', hfind', hregular⟩
  obtain ⟨spot'', hfind'', hspot⟩ := find_grows hgrows hfind
  rw [hfind', Except.ok.injEq] at hfind''
  subst hfind''
  cases hspot with
  | @live location _ node' hlive hlive' =>
    cases hnode
    obtain ⟨bare', hbare', hkept⟩ := hgrows.kept location _ (bare?_of_node? hlive)
    rw [bare?_of_node? hlive', Option.some.injEq] at hbare'
    subst hbare'
    cases node' <;> cases hkept
    cases hregular
  | removed => cases hnode

/-! ## Entries that are kept -/

theorem kept_entryOf {node node' : Node} (h : node.bare.Kept node'.bare) :
    (files.entryOf node).Kept (files'.entryOf node') := by
  cases node <;> cases node' <;> cases h
  · exact .same _
  · exact .same _
  · exact .file _ _
  · exact .file _ _
  · exact .same _
  · exact .same _

theorem Grows.get? (h : Grows files files') {place : Location} {entry : Entry} (hentry : files.get? place = some entry) :
    ∃ entry', files'.get? place = some entry' ∧ entry.Kept entry' := by
  obtain ⟨node, hnode, rfl⟩ := Option.map_eq_some_iff.1 hentry
  obtain ⟨bare', hbare', hkept⟩ := h.kept place _ (bare?_of_node? hnode)
  obtain ⟨node', hnode', rfl⟩ := bare?_eq_some_iff.1 hbare'
  exact ⟨_, Option.map_eq_some_iff.2 ⟨node', hnode', rfl⟩, kept_entryOf hkept⟩

theorem Grows.stat (h : Grows files files') {entry : Entry} (hentry : files.stat path = .ok entry) :
    ∃ entry', files'.stat path = .ok entry' ∧ entry.Kept entry' := by
  obtain ⟨spot, hfind, rfl⟩ := stat_eq_ok_iff.1 hentry
  obtain ⟨spot', hfind', hspot⟩ := find_grows h hfind
  refine ⟨_, stat_eq_ok_iff.2 ⟨spot', hfind', rfl⟩, ?_⟩
  cases hspot with
  | @live location _ node' hlive hlive' =>
    obtain ⟨bare', hbare', hkept⟩ := h.kept location _ (bare?_of_node? hlive)
    rw [bare?_of_node? hlive', Option.some.injEq] at hbare'
    subst hbare'
    exact kept_entryOf hkept
  | removed location mode => exact .same _

theorem get?_of_bare? {place : Location} {node : Node} (h : files.bare? place = some node) :
    files.get? place = some (files.entryOf node) := by
  unfold bare? at h
  rw [get?_eq_map_bare, h, Option.map_some]

theorem get?_eq_none_iff {place : Location} : files.get? place = none ↔ files.bare? place = none := by
  unfold FileSystem.get?
  rw [Option.map_eq_none_iff, bare?_eq_none_iff]

theorem get?_eq_link_iff {place : Location} {target : Path} :
    files.get? place = some (.link target) ↔ files.bare? place = some (.link target) := by
  constructor
  · intro h
    obtain ⟨node, hnode, hentry⟩ := Option.map_eq_some_iff.1 h
    cases node <;> cases hentry
    exact bare?_of_node? hnode
  · exact get?_of_bare?

/-- What is found at a place is determined by the node there, without its entries, and the data of shared files. -/
theorem get?_congr {place : Location} (hbare : files'.bare? place = files.bare? place) (hshared : files'.shared = files.shared) :
    files'.get? place = files.get? place := by
  have hentry : files'.entryOf = files.entryOf := by
    funext node
    cases node <;> simp [entryOf, hshared]
  unfold bare? at hbare
  rw [get?_eq_map_bare, get?_eq_map_bare, hbare, hentry]

/-! ## Directories and their listings -/

theorem isDirectory_iff : files.isDirectory path = true ↔ ∃ mode, files.stat path = .ok (.directory mode) := by
  unfold isDirectory
  constructor
  · intro h
    split at h
    · rename_i mode hstat
      exact ⟨mode, hstat⟩
    · cases h
  · rintro ⟨mode, hstat⟩
    rw [hstat]

theorem isDirectory_iff_find : files.isDirectory path = true ↔
    ∃ spot mode entries, files.find path = .ok spot ∧ spot.node = .directory mode entries := by
  simp only [isDirectory_iff, stat_directory_iff]
  exact exists_comm

theorem isDirectory_directory_of_walk {purpose : Purpose} {arrival : Arrival} {names : List FileName} (hne : names ≠ [])
    (h : files.walk purpose (path.joinAll names) = .ok arrival) : files.isDirectory path.directory = true :=
  isDirectory_iff.2 (stat_directory_of_walk hne h)

theorem isDirectory_directory_of_leads {names : List FileName} (hne : names ≠ []) (h : files.Leads (path.joinAll names)) :
    files.isDirectory path.directory = true := by
  obtain ⟨spot, hfind⟩ := h
  exact isDirectory_directory_of_walk hne (find_eq_ok_iff.1 hfind)

theorem not_isDirectory_of_file {data : FileData} (h : files.stat path = .ok (.file data)) :
    files.isDirectory path ≠ true := by
  intro hdirectory
  obtain ⟨mode, hmode⟩ := isDirectory_iff.1 hdirectory
  rw [h] at hmode
  cases hmode

theorem isDirectory_grows (h : files.isDirectory path = true) (hgrows : Grows files files') :
    files'.isDirectory path = true := by
  obtain ⟨mode, hstat⟩ := isDirectory_iff.1 h
  exact isDirectory_iff.2 ⟨mode, stat_directory_grows hstat hgrows⟩

/-- What a path leads to does not become a directory, and does not cease to be one. -/
theorem isDirectory_eq (hgrows : Grows files files') (hleads : files.Leads path) :
    files'.isDirectory path = files.isDirectory path := by
  rw [Bool.eq_iff_iff]
  constructor
  · intro h
    obtain ⟨mode, hstat⟩ := isDirectory_iff.1 h
    exact isDirectory_iff.2 ⟨mode, stat_directory_of_grows hstat hgrows hleads⟩
  · intro h
    exact isDirectory_grows h hgrows

theorem leads_of_isDirectory (h : files.isDirectory path = true) : files.Leads path := by
  obtain ⟨mode, hstat⟩ := isDirectory_iff.1 h
  exact leads_of_stat hstat

theorem checkPath_of_leads (h : files.Leads path) : checkPath path = .ok () := by
  obtain ⟨spot, hfind⟩ := h
  exact (walk_eq_ok_iff.1 (find_eq_ok_iff.1 hfind)).1

theorem length_of_leads (h : files.Leads path) : path.spelling.length < pathLimit :=
  (checkPath_eq_ok_iff.1 (checkPath_of_leads h)).2.2

theorem list_of_isDirectory (h : files.isDirectory path = true) : ∃ listed, files.list path = .ok listed := by
  obtain ⟨spot, mode, entries, hfind, hnode⟩ := isDirectory_iff_find.1 h
  refine ⟨entries.map Prod.fst, ?_⟩
  unfold list
  simp only [hfind, hnode, bind, Except.bind, pure, Except.pure]

theorem list_inv {listed : List FileName} (h : files.list path = .ok listed) :
    ∃ spot mode entries, files.find path = .ok spot ∧ spot.node = .directory mode entries ∧
      listed = entries.map Prod.fst := by
  unfold list at h
  cases hfind : files.find path with
  | error error => simp [hfind, bind, Except.bind] at h
  | ok spot =>
    cases hnode : spot.node with
    | directory mode entries =>
      simp only [hfind, hnode, bind, Except.bind, pure, Except.pure, Except.ok.injEq] at h
      exact ⟨spot, mode, entries, rfl, hnode, h.symm⟩
    | _ => simp [hfind, hnode, bind, Except.bind] at h

theorem isDirectory_of_list {listed : List FileName} (h : files.list path = .ok listed) :
    files.isDirectory path = true := by
  obtain ⟨spot, mode, entries, hfind, hnode, -⟩ := list_inv h
  exact isDirectory_iff_find.2 ⟨spot, mode, entries, hfind, hnode⟩

/-- A path that is too long is refused for its length, unless there is a NUL in it. -/
theorem list_of_tooLong (hnul : (0 : UInt8) ∉ path.spelling) (hlong : pathLimit ≤ path.spelling.length)
    (files : FileSystem) : files.list path = .error .nameTooLong := by
  have hany : path.spelling.any (· == 0) = false := by
    rw [List.any_eq_false]
    intro byte hbyte hzero
    exact hnul (beq_iff_eq.1 hzero ▸ hbyte)
  have hempty : path.isEmpty = false := by
    unfold Path.isEmpty
    cases hspelling : path.spelling with
    | nil =>
      rw [hspelling] at hlong
      exact absurd hlong (by decide)
    | cons => rfl
  have hcheck : checkPath path = .error .nameTooLong := by
    unfold checkPath
    rw [hany, hempty, if_neg Bool.false_ne_true, if_neg Bool.false_ne_true, if_pos hlong]
  unfold list find walk
  rw [hcheck]
  rfl

theorem ordered_of_node? {place : Location} {node : Node} (h : files.node? place = some node) : node.Ordered := by
  induction place generalizing node with
  | nil =>
    cases h
    exact files.ordered
  | cons name parent ih =>
    obtain ⟨around, hparent, hchild⟩ := Option.bind_eq_some_iff.1 h
    have haround := ih hparent
    cases haround with
    | directory _ entries_ordered => exact entries_ordered _ (Node.mem_of_lookup_eq_some hchild)
    | _ => cases hchild

/-- No name is listed twice. -/
theorem nodup_of_list {listed : List FileName} (h : files.list path = .ok listed) : listed.Nodup := by
  obtain ⟨spot, mode, entries, hfind, hnode, rfl⟩ := list_inv h
  have hbecomes := find_becomes hfind
  cases hbecomes with
  | @live location node _ hlive _ =>
    subst hnode
    cases ordered_of_node? hlive with
    | directory ascending _ =>
      refine (List.pairwise_map.2 ascending).imp fun {a b} hlt => ?_
      rintro rfl
      exact FileName.lt_irrefl _ hlt
  | removed =>
    cases hnode
    exact .nil

theorem lookup_of_mem {name : FileName} {entries : List (FileName × Node)} (h : name ∈ entries.map Prod.fst) :
    ∃ node, entries.lookup name = some node := by
  induction entries with
  | nil => cases h
  | cons head entries ih =>
    obtain ⟨key, node⟩ := head
    by_cases hkey : name = key
    · subst hkey
      exact ⟨node, List.lookup_cons_self⟩
    · have hmem : name ∈ entries.map Prod.fst := (List.mem_cons.1 h).resolve_left hkey
      have hbeq : (name == key) = false := by simpa using hkey
      rw [List.lookup_cons, hbeq]
      exact ih hmem

/-- What is listed is what is found one step below. -/
theorem mem_list_iff {name : FileName} {listed : List FileName} {spot : Spot} (h : files.list path = .ok listed)
    (hfind : files.find path = .ok spot) :
    name ∈ listed ↔ spot.removed = false ∧ ∃ node, files.node? (name :: spot.location) = some node := by
  obtain ⟨spot', mode, entries, hfind', hnode, rfl⟩ := list_inv h
  rw [hfind, Except.ok.injEq] at hfind'
  subst hfind'
  have hbecomes := find_becomes hfind
  cases hbecomes with
  | @live location node _ hlive _ =>
    subst hnode
    have hchild : files.node? (name :: location) = entries.lookup name := by
      show (files.node? location).bind (Node.child? name) = entries.lookup name
      rw [hlive]
      rfl
    rw [hchild]
    constructor
    · intro hmem
      exact ⟨rfl, lookup_of_mem hmem⟩
    · rintro ⟨-, node, hlookup⟩
      exact List.mem_map_of_mem (f := Prod.fst) (Node.mem_of_lookup_eq_some hlookup)
  | removed location mode' =>
    cases hnode
    simp

end ConsoleKit.FileSystem
