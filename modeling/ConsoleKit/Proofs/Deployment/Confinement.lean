import ConsoleKit.Proofs.Deployment.Run

/-!
# Deployments that stay below their target

If no link and no file with several names is below the target, a step of a deployment changes one place: the place below
the target to which its names lead (`step_putAt`). What a run has changed is therefore known (`Confined`): only places
below the target, each with a path that the source has, too. Nothing of a source that is apart from the target is among
them (`Confined.bare?_reached`).
-/

namespace ConsoleKit

open Deployment

namespace FileSystem

variable {files files' : FileSystem} {path source target : Path} {names : List FileName} {place : Location} {node : Node}

/-- The place below the directory at a path to which names lead, if the system accepts the path that they make. -/
structure Below (files : FileSystem) (path : Path) (names : List FileName) (place : Location) : Prop where
  ne_nil : names ≠ []
  accepted : checkPath (path.joinAll names) = .ok ()
  base : ∃ base, files.find path.directory = .ok base ∧ base.removed = false ∧ place = names.reverse ++ base.location

theorem Below.grows (h : files.Below path names place) (hgrows : Grows files files') : files'.Below path names place := by
  obtain ⟨base, hbase, hlive, hplace⟩ := h.base
  obtain ⟨base', hbase', hbecomes⟩ := find_grows hgrows hbase
  exact ⟨h.ne_nil, h.accepted, base', hbase', hbecomes.removed_eq.trans hlive, hbecomes.location_eq.symm ▸ hplace⟩

theorem Below.names_eq {names' : List FileName} (h : files.Below path names place) (h' : files.Below path names' place) :
    names' = names := by
  obtain ⟨base, hbase, -, hplace⟩ := h.base
  obtain ⟨base', hbase', -, hplace'⟩ := h'.base
  rw [hbase, Except.ok.injEq] at hbase'
  rw [← hbase', hplace, List.append_cancel_right_eq] at hplace'
  exact (List.reverse_inj.1 hplace').symm

theorem Below.place_eq {place' : Location} (h : files.Below path names place) (h' : files.Below path names place') :
    place' = place := by
  obtain ⟨base, hbase, -, hplace⟩ := h.base
  obtain ⟨base', hbase', -, hplace'⟩ := h'.base
  rw [hbase, Except.ok.injEq] at hbase'
  rw [hplace, hplace', hbase']

theorem Below.place_ne_nil (h : files.Below path names place) : place ≠ [] := by
  obtain ⟨base, -, -, rfl⟩ := h.base
  simp [h.ne_nil]

theorem PlainBelow.linkFreeBelow (h : files.PlainBelow path) : files.LinkFreeBelow path := by
  intro base hbase hlive
  exact ⟨(find_becomes hbase).node? hlive, fun names target hne hlink => (h base hbase hlive names _ hne hlink).1 target rfl⟩

/-- A path below a directory without links leads to the place that its names make. -/
theorem Below.find (h : files.Below path names place) (hfree : files.LinkFreeBelow path)
    (hnode : files.node? place = some node) : files.find (path.joinAll names) = .ok ⟨place, node, false⟩ := by
  obtain ⟨base, hbase, hlive, rfl⟩ := h.base
  exact find_joinAll_of_node? hfree hbase hlive h.accepted h.ne_nil hnode

/-- A walk to something below a directory without links ends at the place that the names make. -/
theorem below_of_walk {purpose : Purpose} {arrival : Arrival} (hfree : files.LinkFreeBelow path) (hne : names ≠ [])
    (h : files.walk purpose (path.joinAll names) = .ok arrival) : ∃ place, files.Below path names place ∧
      ((∃ node, files.node? place = some node ∧ arrival = .found ⟨place, node, false⟩) ∨
        ∃ directory name, place = name :: directory ∧ files.node? place = none ∧ arrival = .vacant directory name) := by
  obtain ⟨base, hbase, hlive, harrival⟩ := walk_joinAll_place hfree hne h
  exact ⟨_, ⟨hne, (walk_eq_ok_iff.1 h).1, base, hbase, hlive, rfl⟩, harrival⟩

/-- What a path below a directory without links leads to is what is found at the place that its names make. -/
theorem Below.stat_iff {entry : Entry} (h : files.Below path names place) (hfree : files.LinkFreeBelow path) :
    files.stat (path.joinAll names) = .ok entry ↔ files.get? place = some entry := by
  constructor
  · intro hstat
    obtain ⟨spot, hfind, hentry⟩ := stat_eq_ok_iff.1 hstat
    obtain ⟨place', hbelow, ⟨node, hnode, harrival⟩ | ⟨_, _, _, _, harrival⟩⟩ :=
      below_of_walk hfree h.ne_nil (find_eq_ok_iff.1 hfind)
    · cases harrival
      obtain rfl := h.place_eq hbelow
      unfold get?
      rw [hnode, Option.map_some]
      exact congrArg some hentry
    · cases harrival
  · intro hget
    obtain ⟨node, hnode, hentry⟩ := Option.map_eq_some_iff.1 hget
    exact stat_eq_ok_iff.2 ⟨_, h.find hfree hnode, hentry⟩

theorem Below.plain (h : files.Below path names place) (hplain : files.PlainBelow path)
    (hnode : files.node? place = some node) : (∀ target, node ≠ .link target) ∧ ∀ id, node ≠ .shared id := by
  obtain ⟨base, hbase, hlive, rfl⟩ := h.base
  exact hplain base hbase hlive _ node (by simpa using h.ne_nil) hnode

/-- What a step of a deployment puts at a place: a directory where the source has one, or a copy of the file there. -/
inductive Fills (files : FileSystem) (source : Path) (names : List FileName) (place : Location) : Node → Prop where
  | directory {mode around : Mode} {entries : List (FileName × Node)}
      (hsource : files.stat (source.joinAll names) = .ok (.directory mode)) (hnone : files.bare? place = none)
      (haround : files.node? place.tail = some (.directory around entries)) :
      Fills files source names place (.directory around.newDirectory [])
  | file {ref : FileRef} {data : FileData} (hsource : files.ReadsFile (source.joinAll names) ref data)
      (hold : files.bare? place = none ∨ ∃ old, files.bare? place = some (.file old)) :
      Fills files source names place
        (.file (FileData.copy ⟨if ref = .own place then [] else data.content, data.mode⟩))

theorem Fills.leads (h : files.Fills source names place node) : files.Leads (source.joinAll names) := by
  cases h with
  | directory hsource _ _ => exact leads_of_stat hsource
  | file hsource _ =>
    obtain ⟨spot, hfind, -⟩ := hsource
    exact ⟨spot, hfind⟩

end FileSystem

namespace Deployment

open FileSystem

variable {files files' files'' : FileSystem} {source target : Path} {names : List FileName} {place : Location} {node : Node}

/-- A copy to a path below a plain target writes at the place of the path, unless a device is there. -/
theorem copyFile_putAt (hplain : files.PlainBelow target) (hne : names ≠ [])
    (hcopy : files.copyFile (source.joinAll names) (target.joinAll names) = .ok files') :
    ∃ place, files.Below target names place ∧ (files' = files ∧ files.bare? place = some .device ∨
      ∃ ref data, files.ReadsFile (source.joinAll names) ref data ∧
        (files.bare? place = none ∨ ∃ old, files.bare? place = some (.file old)) ∧
        PutAt files files' place
          (.file (FileData.copy ⟨if ref = .own place then [] else data.content, data.mode⟩))) := by
  obtain ⟨ref, data, destination, hreads, hdestination, rfl⟩ := copyFile_inv hcopy
  rcases destination_inv hdestination with ⟨ref', old, rfl, spot, hfind, hregular⟩ |
    ⟨directory, name, rfl, hwalk⟩ | ⟨rfl, spot, hfind, hnode⟩
  · obtain ⟨place, hbelow, ⟨node, hnode, harrival⟩ | ⟨_, _, _, _, harrival⟩⟩ :=
      below_of_walk hplain.linkFreeBelow hne (find_eq_ok_iff.1 hfind)
    · cases harrival
      rcases regular?_eq_some hregular with ⟨rfl, rfl⟩ | ⟨id, rfl, -, -⟩
      · refine ⟨place, hbelow, .inr ⟨ref, data, hreads, .inr ⟨old, bare?_of_node? hnode⟩, ?_⟩⟩
        simp only [existing_eq_iff]
        exact putAt_setData hnode _
      · exact absurd rfl ((hbelow.plain hplain hnode).2 id)
    · cases harrival
  · obtain ⟨place, hbelow, ⟨node, hnode, harrival⟩ | ⟨_, _, rfl, hnone, harrival⟩⟩ := below_of_walk hplain.linkFreeBelow hne hwalk
    · cases harrival
    · cases harrival
      refine ⟨_, hbelow, .inr ⟨ref, data, hreads, .inl (bare?_eq_none_iff.2 hnone), ?_⟩⟩
      have hother : ref ≠ .own (name :: directory) := by
        rintro rfl
        rw [dataOf?_own.1 hreads.dataOf?] at hnone
        cases hnone
      rw [if_neg hother, if_neg (by simp)]
      exact putAt_vacant hwalk _
  · obtain ⟨place, hbelow, ⟨node, hplace, harrival⟩ | ⟨_, _, _, _, harrival⟩⟩ :=
      below_of_walk hplain.linkFreeBelow hne (find_eq_ok_iff.1 hfind)
    · cases harrival
      cases hnode
      exact ⟨place, hbelow, .inl ⟨rfl, bare?_of_node? hplace⟩⟩
    · cases harrival

theorem makeDirectory_putAt (hfree : files.LinkFreeBelow target) (hne : names ≠ [])
    (hmake : files.makeDirectory (target.joinAll names) = .ok files') :
    ∃ place around entries, files.Below target names place ∧ files.bare? place = none ∧
      files.node? place.tail = some (.directory around entries) ∧
      PutAt files files' place (.directory around.newDirectory []) := by
  obtain ⟨vacancy, hvacancy, hnone, hput, -⟩ := makeDirectory_spec hmake
  obtain ⟨⟨entries, haround⟩, -⟩ := vacancy_place hvacancy
  have hslash : (target.joinAll names).endsInSlash = false := by
    obtain ⟨front, name, rfl⟩ := (List.eq_nil_or_concat names).resolve_left hne
    rw [List.concat_eq_append, Path.joinAll_concat, Path.endsInSlash_join]
  obtain ⟨place, hbelow, ⟨_, _, harrival⟩ | ⟨directory, name, rfl, -, harrival⟩⟩ :=
    below_of_walk hfree hne (walk_of_vacancy hvacancy hslash)
  · cases harrival
  · cases harrival
    exact ⟨_, _, entries, hbelow, hnone, haround, hput⟩

/-- A step below a plain target changes one place, or nothing. -/
theorem step_putAt (hplain : files.PlainBelow target) (h : Step source target files files') : files' = files ∨
    ∃ names place node, files.Below target names place ∧ files.Fills source names place node ∧ PutAt files files' place node := by
  cases h with
  | directory hne hsource hmake =>
    obtain ⟨place, around, entries, hbelow, hnone, haround, hput⟩ := makeDirectory_putAt hplain.linkFreeBelow hne hmake
    exact .inr ⟨_, place, _, hbelow, .directory hsource hnone haround, hput⟩
  | file hne hcopy =>
    obtain ⟨place, hbelow, ⟨hsame, -⟩ | ⟨ref, data, hreads, hold, hput⟩⟩ := copyFile_putAt hplain hne hcopy
    · exact .inl hsame
    · exact .inr ⟨_, place, _, hbelow, .file hreads hold, hput⟩

/-! ## What a run has changed -/

/-- What may be found at a changed place: a directory or a file where nothing was, or a file where one was. -/
inductive Filled : Option Node → Option Node → Prop where
  | directory (mode : Mode) : Filled none (some (.directory mode []))
  | file (data : FileData) : Filled none (some (.file data))
  | data (old data : FileData) : Filled (some (.file old)) (some (.file data))

theorem Filled.trans {old new newer : Option Node} (h : Filled old new) (h' : Filled new newer) : Filled old newer := by
  cases h with
  | directory mode => cases h'
  | file data =>
    cases h' with
    | data _ data' => exact .file data'
  | data old data =>
    cases h' with
    | data _ data' => exact .data old data'

theorem filled_of_fills (h : files.Fills source names place node) : Filled (files.bare? place) (some node) := by
  cases h with
  | directory _ hnone _ =>
    rw [hnone]
    exact .directory _
  | file _ hold =>
    rcases hold with hnone | ⟨old, hold⟩
    · rw [hnone]
      exact .file _
    · rw [hold]
      exact .data old _

/-- Only places below the target have changed, at paths that the source has. -/
structure Confined (source target : Path) (files files' : FileSystem) : Prop where
  workingDirectory : files'.workingDirectory = files.workingDirectory
  shared : files'.shared = files.shared
  bare? : ∀ place, files'.bare? place = files.bare? place ∨ ∃ names, files.Below target names place ∧
    files'.Leads (source.joinAll names) ∧ Filled (files.bare? place) (files'.bare? place)

theorem Confined.refl (source target : Path) (files : FileSystem) : Confined source target files files :=
  ⟨rfl, rfl, fun _ => .inl rfl⟩

theorem Confined.grows (h : Confined source target files files') : files.Grows files' := by
  refine ⟨h.workingDirectory, ?_⟩
  intro place node hnode
  rcases h.bare? place with hsame | ⟨names, -, -, hfilled⟩
  · exact ⟨node, hsame.trans hnode, .same node⟩
  · rw [hnode] at hfilled
    generalize hnew : files'.bare? place = new at hfilled
    cases hfilled with
    | data old data => exact ⟨_, rfl, .file old data⟩

/-- If the path of the target leads nowhere, nothing can have changed, and it leads nowhere still. -/
theorem Confined.find_target (h : Confined source target files files') {base' : Spot}
    (hbase' : files'.find target.directory = .ok base') : ∃ base, files.find target.directory = .ok base := by
  cases hbase : files.find target.directory with
  | ok base => exact ⟨base, rfl⟩
  | error error =>
    have hback : files'.Grows files := by
      refine ⟨h.workingDirectory.symm, fun place node hnode => ⟨node, ?_, .same node⟩⟩
      rcases h.bare? place with hsame | ⟨names, hbelow, -, -⟩
      · rw [← hsame, hnode]
      · obtain ⟨base, hfind, -⟩ := hbelow.base
        rw [hbase] at hfind
        cases hfind
    obtain ⟨base, hfind, -⟩ := find_grows hback hbase'
    rw [hbase] at hfind
    cases hfind

theorem Confined.below (h : Confined source target files files') (hbelow : files'.Below target names place) :
    files.Below target names place := by
  obtain ⟨base', hbase', hlive, rfl⟩ := hbelow.base
  obtain ⟨base, hbase⟩ := h.find_target hbase'
  obtain ⟨base'', hbase'', hbecomes⟩ := find_grows h.grows hbase
  rw [hbase', Except.ok.injEq] at hbase''
  subst hbase''
  refine ⟨hbelow.ne_nil, hbelow.accepted, base, hbase, hbecomes.removed_eq.symm.trans hlive, ?_⟩
  rw [hbecomes.location_eq]

/-- No link and no file with several names comes to be below the target. -/
theorem Confined.plainBelow (h : Confined source target files files') (hplain : files.PlainBelow target) :
    files'.PlainBelow target := by
  intro base' hbase' hlive names node hne hnode
  obtain ⟨base, hbase⟩ := h.find_target hbase'
  obtain ⟨base'', hbase'', hbecomes⟩ := find_grows h.grows hbase
  rw [hbase', Except.ok.injEq] at hbase''
  subst hbase''
  rw [hbecomes.location_eq] at hnode
  have hbare := bare?_of_node? hnode
  rcases h.bare? (names ++ base.location) with hsame | ⟨_, -, -, hfilled⟩
  · rw [hsame] at hbare
    obtain ⟨full, hfull, hsame'⟩ := bare?_eq_some_iff.1 hbare
    obtain ⟨hlink, hshared⟩ := hplain base hbase (hbecomes.removed_eq.symm.trans hlive) names full hne hfull
    cases full <;> cases node <;> cases hsame'
    · simp
    · simp
    · exact absurd rfl (hshared _)
    · exact absurd rfl (hlink _)
    · simp
  · rw [hbare] at hfilled
    generalize files.bare? (names ++ base.location) = old at hfilled
    generalize hnew : some node.bare = new at hfilled
    cases hfilled <;> cases node <;> cases hnew <;> simp

/-- A step changes no place but the one to which its names lead. -/
theorem Confined.step (h : Confined source target files files') (hplain : files.PlainBelow target)
    (hstep : Step source target files' files'') : Confined source target files files'' := by
  rcases step_putAt (h.plainBelow hplain) hstep with rfl | ⟨names, place, node, hbelow, hfills, hput⟩
  · exact h
  refine ⟨hput.workingDirectory.trans h.workingDirectory, hput.shared.trans h.shared, ?_⟩
  intro place'
  by_cases hplace : place' = place
  · subst hplace
    have hnew : files''.bare? place' = some node := (hput.bare?_eq place').trans (if_pos rfl)
    refine .inr ⟨names, h.below hbelow, hfills.leads.grows hstep.grows, ?_⟩
    rw [hnew]
    rcases h.bare? place' with hsame | ⟨_, -, -, hfilled⟩
    · exact hsame ▸ filled_of_fills hfills
    · exact hfilled.trans (filled_of_fills hfills)
  · have hsame : files''.bare? place' = files'.bare? place' := (hput.bare?_eq place').trans (if_neg hplace)
    rw [hsame]
    rcases h.bare? place' with hsame' | ⟨names', hbelow', hleads, hfilled⟩
    · exact .inl hsame'
    · exact .inr ⟨names', hbelow', hleads.grows hstep.grows, hfilled⟩

theorem Confined.runs (h : Confined source target files files') (hplain : files.PlainBelow target)
    (hrun : Runs source target files' files'') : Confined source target files files'' := by
  induction hrun with
  | refl => exact h
  | tail _ hstep ih => exact ih.step hplain hstep

theorem confined_of_runs (hplain : files.PlainBelow target) (h : Runs source target files files') :
    Confined source target files files' :=
  (Confined.refl source target files).runs hplain h

/-! ## What the source has -/

/-- Nothing is reached from the source that is reached from the target. -/
def Apart (source target : Path) (before files : FileSystem) : Prop :=
  ∀ a b, before.Reaches source a → files.Reaches target b → ¬ a.Same b

/-- What is below a plain target, or is the target itself, is reached from it. -/
theorem reaches_of_node? {names' : List FileName} {base : Spot} (hplain : files.PlainBelow target)
    (hbase : files.find target.directory = .ok base) (hlive : base.removed = false)
    (haccepted : checkPath (target.joinAll (names ++ names')) = .ok ())
    (hnode : files.node? (names.reverse ++ base.location) = some node) :
    files.Reaches target ⟨names.reverse ++ base.location, node, false⟩ := by
  refine ⟨names, ?_⟩
  by_cases hne : names = []
  · subst hne
    obtain ⟨hroot, -⟩ := hplain.linkFreeBelow base hbase hlive
    have hnode : files.node? base.location = some node := hnode
    rw [hroot, Option.some.injEq] at hnode
    obtain ⟨location, node', removed⟩ := base
    cases hlive
    cases hnode
    exact hbase
  · have hcheck : checkPath (target.joinAll names) = .ok () := by
      rw [Path.joinAll_append] at haccepted
      have hempty := target.isEmpty_joinAll hne
      exact checkPath_of_isPrefix haccepted (by simpa [Path.isEmpty] using hempty) (Path.spelling_prefix_joinAll _ _)
    have hfind := find_joinAll_of_node? hplain.linkFreeBelow hbase hlive hcheck hne hnode
    rw [directory_of_find hfind]
    exact hfind

section Apart

variable {before : FileSystem} {spot : Spot}

/-- Nothing that the source reaches is at a place below the target. -/
theorem Apart.not_below (hapart : Apart source target before files) (hplain : files.PlainBelow target)
    (hreached : before.Reaches source spot) (hlive : spot.removed = false) (hnode : files.node? spot.location = some node) :
    ¬ files.Below target names spot.location := by
  intro hbelow
  obtain ⟨base, hbase, hbaselive, hplace⟩ := hbelow.base
  have haccepted : checkPath (target.joinAll (names ++ [])) = .ok () := by
    rw [List.append_nil]
    exact hbelow.accepted
  have hnode' := hplace ▸ hnode
  exact hapart spot _ hreached (reaches_of_node? hplain hbase hbaselive haccepted hnode') (.inl ⟨hplace, hlive⟩)

theorem Apart.not_below_entry (hapart : Apart source target before files) (hplain : files.PlainBelow target)
    (hreached : before.Reaches source spot) (hlive : spot.removed = false) (hnode : files.node? spot.location = some node)
    (name : FileName) : ¬ files.Below target names (name :: spot.location) := by
  intro hbelow
  obtain ⟨base, hbase, hbaselive, hplace⟩ := hbelow.base
  obtain ⟨front, last, rfl⟩ := (List.eq_nil_or_concat names).resolve_left hbelow.ne_nil
  rw [List.concat_eq_append, List.reverse_append, List.reverse_singleton, List.append_assoc, List.singleton_append,
    List.cons.injEq] at hplace
  have haccepted := hbelow.accepted
  rw [List.concat_eq_append] at haccepted
  have hnode' := hplace.2 ▸ hnode
  exact hapart spot _ hreached (reaches_of_node? hplain hbase hbaselive haccepted hnode') (.inl ⟨hplace.2, hlive⟩)

/-- What the source reaches stays as it is while a run, of this source or another, changes places below the target. -/
theorem Confined.bare?_reached {other : Path} (h : Confined other target files files') (hplain : files.PlainBelow target)
    (hapart : Apart source target before files) (hreached : before.Reaches source spot) (hlive : spot.removed = false)
    (hnode : files.node? spot.location = some node) : files'.bare? spot.location = files.bare? spot.location ∧
      ∀ name, files'.bare? (name :: spot.location) = files.bare? (name :: spot.location) := by
  constructor
  · rcases h.bare? spot.location with hsame | ⟨names, hbelow, -, -⟩
    · exact hsame
    · exact absurd hbelow (hapart.not_below hplain hreached hlive hnode)
  · intro name
    rcases h.bare? (name :: spot.location) with hsame | ⟨names, hbelow, -, -⟩
    · exact hsame
    · exact absurd hbelow (hapart.not_below_entry hplain hreached hlive hnode name)

end Apart

end Deployment

end ConsoleKit
