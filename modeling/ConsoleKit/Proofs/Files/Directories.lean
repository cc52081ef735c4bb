import ConsoleKit.Proofs.Files.Changes
import ConsoleKit.Proofs.Files.Looking

/-!
# Making directories

A directory is made at one place, where nothing was, and the path leads to it afterwards (`makeDirectory_spec`). Where
something is nothing is made (`makeDirectory_of_follow`). A path is made with its missing parents by making one
directory after the other, each at an ancestor of the path (`makeDirectories_madeAt`).
-/

namespace ConsoleKit.FileSystem

open ConsoleKit.Path (Segment)

variable {files files' : FileSystem} {path : Path}

/-! ## One directory -/

theorem walkToLast_eq_ok {before : List Segment} {last : Segment} {start spot : Spot} (hcheck : checkPath path = .ok ())
    (hsteps : path.steps = before ++ [last]) (horigin : files.origin path = .ok start)
    (hfollow : files.follow .find linkLimit start before = .ok (.found spot)) :
    files.walkToLast path = .ok (spot, last) := by
  have hreverse : path.steps.reverse = last :: before.reverse := by rw [hsteps]; simp
  unfold walkToLast
  rw [hcheck, hreverse]
  simp [horigin, hfollow, bind, Except.bind, pure, Except.pure]

theorem walkToLast_inv {spot : Spot} {last : Segment} (h : files.walkToLast path = .ok (spot, last)) :
    checkPath path = .ok () ∧ (path.steps = [] ∧ spot = files.rootSpot ∧ last = .current ∨
      ∃ before start, path.steps = before ++ [last] ∧ files.origin path = .ok start ∧
        files.follow .find linkLimit start before = .ok (.found spot)) := by
  unfold walkToLast at h
  cases hcheck : checkPath path with
  | error error => simp [hcheck, bind, Except.bind] at h
  | ok _ =>
    refine ⟨rfl, ?_⟩
    cases hreverse : path.steps.reverse with
    | nil =>
      simp only [hcheck, hreverse, bind, Except.bind, pure, Except.pure, Except.ok.injEq, Prod.mk.injEq] at h
      exact .inl ⟨List.reverse_eq_nil_iff.1 hreverse, h.1.symm, h.2.symm⟩
    | cons segment before =>
      cases horigin : files.origin path with
      | error error => simp [hcheck, hreverse, horigin, bind, Except.bind] at h
      | ok start =>
        cases hfollow : files.follow .find linkLimit start before.reverse with
        | error error => simp [hcheck, hreverse, horigin, hfollow, bind, Except.bind] at h
        | ok arrival =>
          cases arrival with
          | vacant _ _ => simp [hcheck, hreverse, horigin, hfollow, bind, Except.bind] at h
          | found found =>
            simp only [hcheck, hreverse, horigin, hfollow, bind, Except.bind, pure, Except.pure, Except.ok.injEq,
              Prod.mk.injEq] at h
            obtain ⟨rfl, rfl⟩ := h
            refine .inr ⟨before.reverse, start, ?_, rfl, hfollow⟩
            rw [← List.reverse_cons, ← hreverse, List.reverse_reverse]

/-- A vacancy is in a directory to which the path without its last name leads. -/
theorem vacancy_inv {vacancy : Vacancy} (h : files.vacancy path = .ok vacancy) :
    checkPath path = .ok () ∧ ∃ before piece start entries, path.steps = before ++ [.entry piece] ∧
      files.origin path = .ok start ∧
      files.follow .find linkLimit start before =
        .ok (.found ⟨vacancy.directory, .directory vacancy.mode entries, false⟩) ∧
      FileName.ofBytes? piece = some vacancy.name ∧ entries.lookup vacancy.name = none := by
  unfold FileSystem.vacancy at h
  cases hlast : files.walkToLast path with
  | error error => simp [hlast, bind, Except.bind] at h
  | ok result =>
    obtain ⟨⟨location, node, removed⟩, last⟩ := result
    obtain ⟨hcheck, hwalk⟩ := walkToLast_inv hlast
    refine ⟨hcheck, ?_⟩
    simp only [hlast, bind, Except.bind] at h
    cases node with
    | directory mode entries =>
      cases last with
      | entry piece =>
        simp only at h
        cases removed with
        | true => simp at h
        | false =>
          simp only [Bool.false_eq_true, if_false] at h
          cases hname : FileName.ofBytes? piece with
          | none => simp [hname] at h
          | some name =>
            cases hlookup : entries.lookup name with
            | some node => simp [hname, hlookup] at h
            | none =>
              simp only [hname, hlookup, Option.isSome_none, Bool.false_eq_true, if_false, pure, Except.pure,
                Except.ok.injEq] at h
              subst h
              rcases hwalk with ⟨-, -, hcurrent⟩ | ⟨before, start, hsteps, horigin, hfollow⟩
              · cases hcurrent
              · exact ⟨before, piece, start, entries, hsteps, horigin, hfollow, hname, hlookup⟩
      | _ => simp at h
    | _ => simp at h

theorem follow_becomes {links : Nat} {purpose : Purpose} {spot found : Spot} {segments : List Segment}
    (hs : Spot.Becomes files files spot spot) (h : files.follow purpose links spot segments = .ok (.found found)) :
    Spot.Becomes files files found found := by
  obtain ⟨found', -, hfound⟩ := follow_grows (Grows.refl files) hs h
  exact hfound.self

/-- A vacancy is at a place where nothing is, in a directory of the tree. -/
theorem vacancy_place {vacancy : Vacancy} (h : files.vacancy path = .ok vacancy) :
    (∃ entries, files.node? vacancy.directory = some (.directory vacancy.mode entries)) ∧
      files.node? vacancy.location = none := by
  obtain ⟨-, before, piece, start, entries, -, horigin, hfollow, -, hlookup⟩ := vacancy_inv h
  have hlive := follow_becomes (origin_becomes horigin) hfollow
  cases hlive with
  | live hnode _ =>
    refine ⟨⟨entries, hnode⟩, ?_⟩
    unfold Vacancy.location
    rw [node?_cons, hnode]
    exact hlookup

/-- A vacancy is where a walk arrives, if the path has no slash at its end. -/
theorem walk_of_vacancy {vacancy : Vacancy} (h : files.vacancy path = .ok vacancy) (hslash : path.endsInSlash = false) :
    files.walk .find path = .ok (.vacant vacancy.directory vacancy.name) := by
  obtain ⟨hcheck, before, piece, start, entries, hsteps, horigin, hfollow, hname, hlookup⟩ := vacancy_inv h
  obtain ⟨links, hlinks⟩ := follow_append hfollow
  rw [walk_eq_ok_iff]
  refine ⟨hcheck, start, horigin, ?_⟩
  unfold Path.segments
  rw [hslash, hsteps, if_neg (by simp), hlinks .find _ (by simp) (by simp)]
  refine follow_of_arrived ?_
  rw [advance_missing not_refused_find hname hlookup]
  rfl

theorem makeDirectory_eq_ok_iff : files.makeDirectory path = .ok files' ↔ ∃ vacancy, files.vacancy path = .ok vacancy ∧
    files.put vacancy.location (.directory vacancy.mode.newDirectory []) (.emptyDirectory _) = files' := by
  unfold makeDirectory
  cases files.vacancy path with
  | error error => simp [bind, Except.bind]
  | ok vacancy => simp [bind, Except.bind, pure, Except.pure]

/-- A directory is made for the last name of a path if the directory before it does not have the name. -/
theorem makeDirectory_of_lookup {before : List Segment} {start : Spot} {location : Location} {mode : Mode}
    {entries : List (FileName × Node)} {name : FileName} (hcheck : checkPath path = .ok ())
    (hsteps : path.steps = before ++ [.entry name.bytes]) (horigin : files.origin path = .ok start)
    (hfollow : files.follow .find linkLimit start before = .ok (.found ⟨location, .directory mode entries, false⟩))
    (hlookup : entries.lookup name = none) : ∃ made, files.makeDirectory path = .ok made := by
  have hlast := walkToLast_eq_ok hcheck hsteps horigin hfollow
  have hvacancy : files.vacancy path = .ok ⟨location, mode, name⟩ := by
    unfold vacancy
    simp [hlast, bind, Except.bind, pure, Except.pure, ofBytes?_bytes, hlookup]
  exact ⟨_, makeDirectory_eq_ok_iff.2 ⟨_, hvacancy, rfl⟩⟩

/-- No directory is made where the directory before the last name is missing. -/
theorem makeDirectory_of_missing {before : List Segment} {last : Segment} {start : Spot} (hcheck : checkPath path = .ok ())
    (hsteps : path.steps = before ++ [last]) (horigin : files.origin path = .ok start)
    (hfollow : (∃ directory name, files.follow .find linkLimit start before = .ok (.vacant directory name)) ∨
      files.follow .find linkLimit start before = .error .notFound) : files.makeDirectory path = .error .notFound := by
  have hreverse : path.steps.reverse = last :: before.reverse := by rw [hsteps]; simp
  have hlast : files.walkToLast path = .error .notFound := by
    unfold walkToLast
    rw [hcheck, hreverse]
    rcases hfollow with ⟨directory, name, hfollow⟩ | hfollow <;> simp [horigin, hfollow, bind, Except.bind]
  simp [makeDirectory, vacancy, hlast, bind, Except.bind]

/-- A path leads to the last of its entries if the steps before it lead to the directory. -/
theorem find_entry {before : List Segment} {piece : Bytes} {start : Spot} {location : Location} {mode mode' : Mode}
    {entries entries' : List (FileName × Node)} {name : FileName} (hcheck : checkPath path = .ok ())
    (hsteps : path.steps = before ++ [.entry piece]) (horigin : files.origin path = .ok start)
    (hfollow : files.follow .find linkLimit start before = .ok (.found ⟨location, .directory mode entries, false⟩))
    (hname : FileName.ofBytes? piece = some name) (hlookup : entries.lookup name = some (.directory mode' entries')) :
    files.find path = .ok ⟨name :: location, .directory mode' entries', false⟩ := by
  obtain ⟨links, hlinks⟩ := follow_append hfollow
  rw [find_eq_ok_iff, walk_eq_ok_iff]
  refine ⟨hcheck, start, horigin, ?_⟩
  have hpasses : files.Passes ⟨location, .directory mode entries, false⟩ (.entry piece)
      ⟨name :: location, .directory mode' entries', false⟩ := .entry hname hlookup (by simp)
  have hadvance : ∀ rest, (∀ segment ∈ rest, segment = .current ∨ segment = .trailingSlash) →
      files.follow .find links ⟨location, .directory mode entries, false⟩ (.entry piece :: rest) =
        .ok (.found ⟨name :: location, .directory mode' entries', false⟩) := by
    intro rest hrest
    refine follow_of_arrived ?_
    rw [advance_passes hpasses not_refused_find]
    cases rest with
    | nil => rfl
    | cons segment rest =>
      have hstay : files.follow .find 0 ⟨name :: location, .directory mode' entries', false⟩ (segment :: rest) =
          .ok (.found ⟨name :: location, .directory mode' entries', false⟩) :=
        (follow_stay_iff hrest (by simp)).2 ⟨rfl, _, _, rfl⟩
      rcases follow_inv hstay with h | ⟨_, _, _, _, hlinks, _⟩
      · exact h
      · cases hlinks
  unfold Path.segments
  split
  · rw [hsteps, List.append_assoc, hlinks .find _ (by simp) (by simp)]
    exact hadvance _ (by simp)
  · rw [hsteps, hlinks .find _ (by simp) (by simp)]
    exact hadvance [] (by simp)

/-- A new directory is made where nothing was, nothing else changes, and the path leads to it. -/
theorem makeDirectory_spec (h : files.makeDirectory path = .ok files') : ∃ vacancy, files.vacancy path = .ok vacancy ∧
    files.bare? vacancy.location = none ∧
    PutAt files files' vacancy.location (.directory vacancy.mode.newDirectory []) ∧
    files'.find path = .ok ⟨vacancy.location, .directory vacancy.mode.newDirectory [], false⟩ := by
  obtain ⟨vacancy, hvacancy, rfl⟩ := makeDirectory_eq_ok_iff.1 h
  obtain ⟨⟨entries, hparent⟩, hnone⟩ := vacancy_place hvacancy
  have hput : PutAt files (files.put vacancy.location (.directory vacancy.mode.newDirectory []) (.emptyDirectory _))
      vacancy.location (.directory vacancy.mode.newDirectory []) := by
    refine putAt_put (.emptyDirectory _) hparent rfl fun old hold => ?_
    rw [← Vacancy.location, hnone] at hold
    cases hold
  have hbare := bare?_eq_none_iff.2 hnone
  have hgrows := hput.grows fun old hold => by rw [hbare] at hold; cases hold
  refine ⟨vacancy, hvacancy, hbare, hput, ?_⟩
  obtain ⟨hcheck, before, piece, start, _, hsteps, horigin, hfollow, hname, -⟩ := vacancy_inv hvacancy
  obtain ⟨start', horigin', hstart⟩ := origin_grows hgrows horigin
  obtain ⟨found, hfollow', hfound⟩ := follow_grows hgrows hstart hfollow
  obtain ⟨entries', hentries'⟩ := hfound.directory hgrows rfl
  have hnew : (files.put vacancy.location (.directory vacancy.mode.newDirectory []) (.emptyDirectory _)).node?
      (vacancy.name :: vacancy.directory) = some (.directory vacancy.mode.newDirectory []) := node?_put hparent _ _
  cases hfound with
  | live _ hlive =>
    subst hentries'
    rw [node?_cons, hlive] at hnew
    exact find_entry hcheck hsteps horigin' hfollow' hname hnew

theorem makeDirectory_grows (h : files.makeDirectory path = .ok files') : Grows files files' := by
  obtain ⟨vacancy, -, hnone, hput, -⟩ := makeDirectory_spec h
  exact hput.grows fun old hold => by rw [hnone] at hold; cases hold

theorem isDirectory_of_makeDirectory (h : files.makeDirectory path = .ok files') : files'.isDirectory path = true := by
  obtain ⟨vacancy, -, -, -, hfind⟩ := makeDirectory_spec h
  exact isDirectory_iff_find.2 ⟨_, _, _, hfind, rfl⟩

/-- A last name that leads somewhere is not vacant. -/
theorem vacancy_of_arrival {directory spot : Spot} {last : Segment} {links : Nat}
    (hlast : files.walkToLast path = .ok (directory, last))
    (harrival : files.follow .find links directory [last] = .ok (.found spot)) :
    files.vacancy path = .error .alreadyExists := by
  unfold FileSystem.vacancy
  rw [hlast]
  rcases follow_found_cons harrival with ⟨next, hpasses⟩ |
    ⟨location, mode, entries, piece, name, target, rfl, rfl, hname, hlookup⟩
  · cases hpasses with
    | stay hnode hsegment => rcases hsegment with rfl | rfl <;> simp [bind, Except.bind, hnode]
    | parent hnode hparent => simp [bind, Except.bind, hnode]
    | entry hname hlookup _ => simp [bind, Except.bind, hname, hlookup]
  · simp [bind, Except.bind, hname, hlookup]

/-- Nothing is made at a path whose steps lead somewhere, and it is not because something is missing. -/
theorem makeDirectory_of_follow {start spot : Spot} (hcheck : checkPath path = .ok ())
    (horigin : files.origin path = .ok start) (hfollow : files.follow .find linkLimit start path.steps = .ok (.found spot)) :
    ∃ error, files.makeDirectory path = .error error ∧ error ≠ .notFound := by
  have hvacancy : ∃ error, files.vacancy path = .error error ∧ error ≠ .notFound := by
    rcases List.eq_nil_or_concat path.steps with hsteps | ⟨before, last, hsteps⟩
    · have hlast : files.walkToLast path = .ok (files.rootSpot, .current) := by
        unfold walkToLast
        rw [hcheck, hsteps]
        rfl
      unfold FileSystem.vacancy
      rw [hlast]
      cases hnode : files.rootSpot.node <;> simp [bind, Except.bind, hnode]
    · rw [List.concat_eq_append] at hsteps
      rw [hsteps] at hfollow
      obtain ⟨directory, links, hdirectory, harrival⟩ := follow_prefix (by simp) hfollow
      have hlast := walkToLast_eq_ok hcheck hsteps horigin hdirectory
      exact ⟨_, vacancy_of_arrival hlast harrival, by simp⟩
  obtain ⟨error, herror, hne⟩ := hvacancy
  exact ⟨error, by rw [makeDirectory, herror]; rfl, hne⟩

/-! ## A directory and its missing parents -/

/-- A path that leads somewhere does so along its steps. -/
theorem follow_of_find {spot : Spot} (h : files.find path = .ok spot) : checkPath path = .ok () ∧
    ∃ start, files.origin path = .ok start ∧ files.follow .find linkLimit start path.steps = .ok (.found spot) := by
  obtain ⟨hcheck, -⟩ := walk_eq_ok_iff.1 (find_eq_ok_iff.1 h)
  refine ⟨hcheck, follow_steps ?_⟩
  rwa [directory_of_find h]

theorem isDirectory_of_settle {error : SystemError} (h : files.settle path error = .ok ()) :
    files.isDirectory path = true := by
  unfold settle at h
  by_cases hdirectory : files.isDirectory path = true
  · exact hdirectory
  · rw [if_neg hdirectory] at h
    cases h

theorem find_of_settle {error : SystemError} (h : files.settle path error = .ok ()) : ∃ spot, files.find path = .ok spot :=
  leads_of_isDirectory (isDirectory_of_settle h)

theorem makeDirectories_of_isEmpty (h : path.isEmpty) (above : List Path.Pieces) :
    files.makeDirectories path above = (.ok (), files) := by
  rw [makeDirectories.eq_def, if_pos h]

theorem makeDirectories_of_ok (hempty : ¬ path.isEmpty) (h : files.makeDirectory path = .ok files')
    (above : List Path.Pieces) : files.makeDirectories path above = (.ok (), files') := by
  rw [makeDirectories.eq_def, if_neg hempty, h]

theorem makeDirectories_of_error {error : SystemError} (hempty : ¬ path.isEmpty)
    (h : files.makeDirectory path = .error error) (hne : error ≠ .notFound) (above : List Path.Pieces) :
    files.makeDirectories path above = (files.settle path error, files) := by
  rw [makeDirectories.eq_def, if_neg hempty, h]
  cases error with
  | notFound => exact absurd rfl hne
  | _ => rfl

/-- Nothing is made for a path that the system does not accept. -/
theorem makeDirectories_of_not_accepted (h : checkPath path ≠ .ok ()) (above : List Path.Pieces) :
    (files.makeDirectories path above).2 = files := by
  by_cases hempty : path.isEmpty
  · rw [makeDirectories_of_isEmpty hempty]
  · cases hcheck : checkPath path with
    | ok _ => exact absurd hcheck h
    | error error =>
      have hmake : files.makeDirectory path = .error error := by
        simp [makeDirectory, vacancy, walkToLast, hcheck, bind, Except.bind]
      have hne : error ≠ .notFound := by
        rintro rfl
        unfold checkPath at hcheck
        grind
      rw [makeDirectories_of_error hempty hmake hne]

/-- Nothing is made for a path whose steps lead somewhere. -/
theorem makeDirectories_of_follow {start spot : Spot} (hcheck : checkPath path = .ok ())
    (horigin : files.origin path = .ok start) (hfollow : files.follow .find linkLimit start path.steps = .ok (.found spot))
    (above : List Path.Pieces) : (files.makeDirectories path above).2 = files := by
  by_cases hempty : path.isEmpty
  · rw [makeDirectories_of_isEmpty hempty]
  · obtain ⟨error, herror, hne⟩ := makeDirectory_of_follow hcheck horigin hfollow
    rw [makeDirectories_of_error hempty herror hne]

theorem makeDirectories_of_find {spot : Spot} (h : files.find path = .ok spot) (above : List Path.Pieces) :
    (files.makeDirectories path above).2 = files := by
  obtain ⟨hcheck, start, horigin, hfollow⟩ := follow_of_find h
  exact makeDirectories_of_follow hcheck horigin hfollow above

theorem makeDirectories_of_parent_error {error : SystemError} {parent : Path.Pieces} {above : List Path.Pieces}
    (hempty : ¬ path.isEmpty) (h : files.makeDirectory path = .error .notFound)
    (hparent : files.makeDirectories parent.path above = (.error error, files')) :
    files.makeDirectories path (parent :: above) = (.error error, files') := by
  rw [makeDirectories.eq_def, if_neg hempty, h]
  simp only [hparent]

theorem makeDirectories_of_parent_ok {parent : Path.Pieces} {above : List Path.Pieces} (hempty : ¬ path.isEmpty)
    (h : files.makeDirectory path = .error .notFound)
    (hparent : files.makeDirectories parent.path above = (.ok (), files')) :
    files.makeDirectories path (parent :: above) =
      match files'.makeDirectory path with
      | .ok made => (.ok (), made)
      | .error error => (files'.settle path error, files') := by
  rw [makeDirectories.eq_def, if_neg hempty, h]
  cases hmake : files'.makeDirectory path <;> simp only [hparent, hmake]

/-- New directories are the only change, and each is what one of the paths leads to. -/
structure MadeAt (paths : List Path) (files files' : FileSystem) : Prop where
  workingDirectory : files'.workingDirectory = files.workingDirectory
  shared : files'.shared = files.shared
  bare? : ∀ place, files'.bare? place = files.bare? place ∨ files.bare? place = none ∧
    (∃ mode, files'.bare? place = some (.directory mode [])) ∧
    ∃ path ∈ paths, ∃ spot, files'.find path = .ok spot ∧ spot.location = place ∧ spot.removed = false

theorem MadeAt.refl (paths : List Path) (files : FileSystem) : MadeAt paths files files :=
  ⟨rfl, rfl, fun _ => .inl rfl⟩

theorem MadeAt.grows {paths : List Path} (h : MadeAt paths files files') : Grows files files' := by
  refine ⟨h.workingDirectory, fun place node hnode => ⟨node, ?_, .same node⟩⟩
  rcases h.bare? place with hsame | ⟨hnone, -⟩
  · rw [hsame, hnode]
  · rw [hnone] at hnode
    cases hnode

theorem MadeAt.mono {paths paths' : List Path} (h : MadeAt paths files files') (hsub : paths ⊆ paths') :
    MadeAt paths' files files' := by
  refine ⟨h.workingDirectory, h.shared, ?_⟩
  intro place
  rcases h.bare? place with hsame | ⟨hnone, hmode, path, hpath, hspot⟩
  · exact .inl hsame
  · exact .inr ⟨hnone, hmode, path, hsub hpath, hspot⟩

theorem MadeAt.trans {paths : List Path} {a b c : FileSystem} (hab : MadeAt paths a b) (hbc : MadeAt paths b c) :
    MadeAt paths a c := by
  refine ⟨hbc.workingDirectory.trans hab.workingDirectory, hbc.shared.trans hab.shared, ?_⟩
  intro place
  rcases hab.bare? place with hsame | ⟨hnone, ⟨mode, hmode⟩, path, hpath, spot, hfind, hplace, hremoved⟩
  · rw [← hsame]
    exact hbc.bare? place
  · refine .inr ⟨hnone, ⟨mode, ?_⟩, path, hpath, ?_⟩
    · rcases hbc.bare? place with hsame | ⟨hnone', -⟩
      · rw [hsame, hmode]
      · rw [hnone'] at hmode
        cases hmode
    · obtain ⟨spot', hfind', hspot⟩ := find_grows hbc.grows hfind
      exact ⟨spot', hfind', hspot.location_eq.trans hplace, hspot.removed_eq.trans hremoved⟩

theorem MadeAt.dataOf? {paths : List Path} (h : MadeAt paths files files') {ref : FileRef} {data : FileData}
    (hdata : files.dataOf? ref = some data) : files'.dataOf? ref = some data := by
  cases ref with
  | own location =>
    have hbare := bare?_eq_file_iff.2 (dataOf?_own.1 hdata)
    rcases h.bare? location with hsame | ⟨hnone, -⟩
    · exact dataOf?_own.2 (bare?_eq_file_iff.1 (hsame.trans hbare))
    · rw [hnone] at hbare
      cases hbare
  | shared id =>
    unfold FileSystem.dataOf?
    rw [h.shared]
    exact hdata

/-- Making directories changes nothing that was there. -/
theorem MadeAt.stat {paths : List Path} {entry : Entry} (h : MadeAt paths files files') (hstat : files.stat path = .ok entry) :
    files'.stat path = .ok entry := by
  obtain ⟨spot, hfind, hentry⟩ := stat_eq_ok_iff.1 hstat
  obtain ⟨spot', hfind', hspot⟩ := find_grows h.grows hfind
  refine stat_eq_ok_iff.2 ⟨spot', hfind', ?_⟩
  rw [← hentry]
  cases hspot with
  | @live location node node' hnode hnode' =>
    have hsame : files'.bare? location = files.bare? location := by
      rcases h.bare? location with hsame | ⟨hnone, -⟩
      · exact hsame
      · rw [bare?_of_node? hnode] at hnone
        cases hnone
    have hget := get?_congr hsame h.shared
    unfold get? at hget
    rw [hnode, hnode', Option.map_some, Option.map_some, Option.some.injEq] at hget
    exact hget
  | removed location mode => rfl

theorem makeDirectory_madeAt (h : files.makeDirectory path = .ok files') : MadeAt [path] files files' := by
  obtain ⟨vacancy, -, hnone, hput, hfind⟩ := makeDirectory_spec h
  refine ⟨hput.workingDirectory, hput.shared, ?_⟩
  intro place
  by_cases hplace : place = vacancy.location
  · subst hplace
    exact .inr ⟨hnone, ⟨_, (hput.bare?_eq _).trans (if_pos rfl)⟩, path, by simp, _, hfind, rfl, rfl⟩
  · exact .inl ((hput.bare?_eq place).trans (if_neg hplace))

/-- How a path is made with its missing parents: nothing is done; or the path is made; or the parent is made first,
and then nothing more is done, or the path is made. -/
theorem makeDirectories_inv (files : FileSystem) (path : Path) (above : List Path.Pieces) :
    ∃ middle, (middle = files ∨ ∃ parent above', above = parent :: above' ∧
        middle = (files.makeDirectories parent.path above').2) ∧
      ((files.makeDirectories path above).2 = middle ∧
          ((files.makeDirectories path above).1 = .ok () → path.isEmpty ∨ middle.isDirectory path = true) ∨
        ∃ made, middle.makeDirectory path = .ok made ∧ files.makeDirectories path above = (.ok (), made)) := by
  by_cases hempty : path.isEmpty
  · rw [makeDirectories_of_isEmpty hempty]
    exact ⟨files, .inl rfl, .inl ⟨rfl, fun _ => .inl hempty⟩⟩
  cases hmake : files.makeDirectory path with
  | ok made => exact ⟨files, .inl rfl, .inr ⟨made, hmake, makeDirectories_of_ok hempty hmake above⟩⟩
  | error error =>
    by_cases hne : error = .notFound
    · subst hne
      cases above with
      | nil =>
        unfold makeDirectories
        rw [if_neg hempty, hmake]
        exact ⟨files, .inl rfl, .inl ⟨rfl, fun h => by cases h⟩⟩
      | cons parent above =>
        refine ⟨_, .inr ⟨parent, above, rfl, rfl⟩, ?_⟩
        rcases hparent : files.makeDirectories parent.path above with ⟨error | _, files'⟩
        · rw [makeDirectories_of_parent_error hempty hmake hparent]
          exact .inl ⟨rfl, fun h => by cases h⟩
        · rw [makeDirectories_of_parent_ok hempty hmake hparent]
          cases hagain : files'.makeDirectory path with
          | ok made => exact .inr ⟨made, rfl, rfl⟩
          | error error => exact .inl ⟨rfl, fun h => .inr (isDirectory_of_settle h)⟩
    · rw [makeDirectories_of_error hempty hmake hne]
      exact ⟨files, .inl rfl, .inl ⟨rfl, fun h => .inr (isDirectory_of_settle h)⟩⟩

/-- Making a path with its missing parents makes directories only, each at the path or at one of its ancestors. The
induction is on the ancestors: the parent is made with its own. -/
theorem makeDirectories_madeAt (files : FileSystem) (path : Path) (above : List Path.Pieces) :
    MadeAt (path :: above.map Path.Pieces.path) files (files.makeDirectories path above).2 := by
  induction above generalizing path with
  | nil =>
    obtain ⟨middle, rfl | ⟨parent, above', habove, -⟩, hlast⟩ := makeDirectories_inv files path []
    · rcases hlast with ⟨hsame, -⟩ | ⟨made, hmade, hresult⟩
      · rw [hsame]
        exact .refl _ _
      · rw [hresult]
        exact makeDirectory_madeAt hmade
    · cases habove
  | cons parent above ih =>
    obtain ⟨middle, hmiddle, hlast⟩ := makeDirectories_inv files path (parent :: above)
    have hparents : MadeAt (path :: (parent :: above).map Path.Pieces.path) files middle := by
      rcases hmiddle with rfl | ⟨parent', above', habove, rfl⟩
      · exact .refl _ _
      · cases habove
        exact (ih parent.path).mono (List.subset_cons_self _ _)
    rcases hlast with ⟨hsame, -⟩ | ⟨made, hmade, hresult⟩
    · rw [hsame]
      exact hparents
    · rw [hresult]
      exact hparents.trans ((makeDirectory_madeAt hmade).mono (by simp))

theorem madeAt_of_makeDirectories {result : Except SystemError Unit} {above : List Path.Pieces}
    (h : files.makeDirectories path above = (result, files')) : MadeAt (path :: above.map Path.Pieces.path) files files' := by
  have hmade := makeDirectories_madeAt files path above
  rwa [h] at hmade

/-- A path that was made leads to a directory, unless it has no spelling. -/
theorem isDirectory_of_makeDirectories {above : List Path.Pieces} (h : (files.makeDirectories path above).1 = .ok ()) :
    path.isEmpty ∨ (files.makeDirectories path above).2.isDirectory path = true := by
  obtain ⟨middle, -, ⟨hsame, hdirectory⟩ | ⟨made, hmade, hresult⟩⟩ := makeDirectories_inv files path above
  · rw [hsame]
    exact hdirectory h
  · rw [hresult]
    exact .inr (isDirectory_of_makeDirectory hmade)

theorem find_of_makeDirectories {above : List Path.Pieces} (h : (files.makeDirectories path above).1 = .ok ()) :
    path.isEmpty ∨ ∃ spot, (files.makeDirectories path above).2.find path = .ok spot :=
  (isDirectory_of_makeDirectories h).imp_right leads_of_isDirectory

/-! ## A directory whose parent is there -/

theorem isAbsolute_trimmed (hempty : ¬ path.trimmed.isEmpty) : path.trimmed.isAbsolute = path.isAbsolute :=
  Path.isAbsolute_of_isPrefix path.spelling_trimmed_prefix (by simpa [Path.isEmpty] using hempty)

/-- A path that leads somewhere, or has no spelling, needs not be made, even without the blank pieces at its end. -/
theorem makeDirectories_trimmed (h : path.isEmpty ∨ ∃ spot, files.find path = .ok spot) (above : List Path.Pieces) :
    (files.makeDirectories path.trimmed above).2 = files := by
  have hfront := path.spelling_trimmed_prefix
  by_cases hempty : path.trimmed.isEmpty
  · rw [makeDirectories_of_isEmpty hempty]
  have hne : path.trimmed.spelling ≠ [] := by simpa [Path.isEmpty] using hempty
  rcases h with h | ⟨spot, hfind⟩
  · have hnil : path.spelling = [] := by simpa [Path.isEmpty] using h
    rw [hnil, List.prefix_nil] at hfront
    exact absurd hfront hne
  obtain ⟨hcheck, start, horigin, hfollow⟩ := follow_of_find hfind
  rw [← origin_congr (isAbsolute_trimmed hempty)] at horigin
  obtain ⟨dots, hsteps, -⟩ := path.steps_trimmed
  rw [hsteps] at hfollow
  obtain ⟨found, hfound⟩ : ∃ found, files.follow .find linkLimit start path.trimmed.steps = .ok (.found found) := by
    by_cases hdots : dots = []
    · rw [hdots, List.append_nil] at hfollow
      exact ⟨spot, hfollow⟩
    · obtain ⟨found, -, hfound, -⟩ := follow_prefix hdots hfollow
      exact ⟨found, hfound⟩
  exact makeDirectories_of_follow (checkPath_of_isPrefix hcheck hne hfront) horigin hfound above

/-- In a directory that is there, at most the last name of a path is made. -/
theorem makeDirectories_join (h : path.isEmpty ∨ ∃ spot, files.find path = .ok spot) (name : FileName) :
    (∃ made, files.makeDirectory (path.join name) = .ok made ∧
        files.makeDirectories (path.join name) (path.join name).pieces.ancestors = (.ok (), made)) ∨
      (files.makeDirectories (path.join name) (path.join name).pieces.ancestors).2 = files := by
  obtain ⟨parent, above, hancestors, hparent⟩ := Path.ancestors_join path name
  obtain ⟨middle, hmiddle, hlast⟩ := makeDirectories_inv files (path.join name) (path.join name).pieces.ancestors
  have hsame : middle = files := by
    rcases hmiddle with rfl | ⟨parent', above', habove, rfl⟩
    · rfl
    · rw [hancestors] at habove
      cases habove
      rw [hparent]
      exact makeDirectories_trimmed h above
  subst hsame
  rcases hlast with ⟨hsame, -⟩ | hmade
  · exact .inr hsame
  · exact .inl hmade

end ConsoleKit.FileSystem
