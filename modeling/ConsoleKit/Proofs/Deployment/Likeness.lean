import ConsoleKit.Proofs.Deployment.Finishing

/-!
# Sources that look alike

Links are followed wherever a deployment looks at its source, so that what it comes to depends on nothing but what is found
at the names in the source (`Alike`). What it leaves at a place below its target can be computed from what was there, from
what the source has for it, and from the directory around (`Finishes.bare?_eq_brought`). Deployments of sources that look
alike, of one source in two orders for instance, therefore leave the same (`Finishes.files_eq`) and count the same
(`Finishes.report_eq`).
-/

namespace ConsoleKit

open FileSystem

/-- Entries that a deployment treats alike: two directories, or two files with the same data. -/
inductive Entry.Alike : Entry → Entry → Prop where
  | directory (mode mode' : Mode) : Alike (.directory mode) (.directory mode')
  | same (entry : Entry) : Alike entry entry

theorem Entry.Alike.symm {entry entry' : Entry} (h : entry.Alike entry') : entry'.Alike entry := by
  cases h with
  | directory mode mode' => exact .directory mode' mode
  | same => exact .same _

/-- What is at a path, links followed, if it leads somewhere. -/
def FileSystem.entryAt (files : FileSystem) (path : Path) : Option Entry :=
  (files.stat path).toOption

theorem FileSystem.entryAt_of_stat {files : FileSystem} {path : Path} {entry : Entry} (h : files.stat path = .ok entry) :
    files.entryAt path = some entry := by
  rw [entryAt, h, Except.toOption]

theorem FileSystem.entryAt_of_not_leads {files : FileSystem} {path : Path} (h : ¬ files.Leads path) :
    files.entryAt path = none := by
  rw [entryAt]
  cases hstat : files.stat path with
  | error error => rfl
  | ok entry => exact absurd (leads_of_stat hstat) h

theorem FileSystem.isSome_entryAt {files : FileSystem} {path : Path} : (files.entryAt path).isSome ↔ files.Leads path := by
  by_cases hleads : files.Leads path
  · obtain ⟨spot, hfind⟩ := hleads
    rw [entryAt_of_stat (stat_eq_ok_iff.2 ⟨spot, hfind, rfl⟩)]
    exact ⟨fun _ => ⟨spot, hfind⟩, fun _ => rfl⟩
  · rw [entryAt_of_not_leads hleads]
    exact ⟨fun hsome => absurd hsome Bool.false_ne_true, fun h => absurd h hleads⟩

namespace Deployment

variable {files files' final : FileSystem} {source source' target target' : Path} {names front : List FileName}
  {name : FileName} {entry entry' : Entry} {trace trace' : List (List FileName)} {progress progress' : Progress}
  {place : Location}

/-- Two sources, perhaps in different file systems, look alike: the same names lead somewhere, links followed, and to
entries that are alike. -/
structure Alike (files : FileSystem) (source : Path) (files' : FileSystem) (source' : Path) : Prop where
  leads : ∀ names, files.Leads (source.joinAll names) ↔ files'.Leads (source'.joinAll names)
  entry : ∀ names entry entry', files.stat (source.joinAll names) = .ok entry →
    files'.stat (source'.joinAll names) = .ok entry' → entry.Alike entry'

section Alike

theorem Alike.refl (files : FileSystem) (source : Path) : Alike files source files source := by
  refine ⟨fun _ => .rfl, ?_⟩
  intro names entry entry' hstat hstat'
  rw [hstat, Except.ok.injEq] at hstat'
  rw [hstat']
  exact .same entry'

/-- Sources that have the same entries look alike. -/
theorem Alike.of_entryAt (h : ∀ names, files.entryAt (source.joinAll names) = files'.entryAt (source'.joinAll names)) :
    Alike files source files' source' := by
  constructor
  · intro names
    rw [← isSome_entryAt, ← isSome_entryAt, h]
  · intro names entry entry' hstat hstat'
    have hsame := h names
    rw [entryAt_of_stat hstat, entryAt_of_stat hstat', Option.some.injEq] at hsame
    rw [hsame]
    exact .same entry'

variable (h : Alike files source files' source')

include h

theorem Alike.symm : Alike files' source' files source := by
  refine ⟨fun names => (h.leads names).symm, ?_⟩
  intro names entry entry' hstat hstat'
  exact (h.entry names entry' entry hstat' hstat).symm

/-- Where a source has an entry, one that looks alike has an entry that is alike. -/
theorem Alike.stat (hstat : files.stat (source.joinAll names) = .ok entry) :
    ∃ entry', files'.stat (source'.joinAll names) = .ok entry' ∧ entry.Alike entry' := by
  obtain ⟨spot, hfind⟩ := (h.leads names).1 (leads_of_stat hstat)
  have hstat' := stat_eq_ok_iff.2 ⟨spot, hfind, rfl⟩
  exact ⟨_, hstat', h.entry names _ _ hstat hstat'⟩

theorem Alike.isDirectory_of (hdirectory : files.isDirectory (source.joinAll names) = true) :
    files'.isDirectory (source'.joinAll names) = true := by
  obtain ⟨mode, hmode⟩ := isDirectory_iff.1 hdirectory
  obtain ⟨entry', hstat', halike⟩ := h.stat hmode
  cases halike with
  | directory _ mode' => exact isDirectory_iff.2 ⟨mode', hstat'⟩
  | same => exact isDirectory_iff.2 ⟨mode, hstat'⟩

theorem Alike.isDirectory_source (hsource : files.isDirectory source = true) : files'.isDirectory source' = true := by
  have hempty : files.isDirectory (source.joinAll []) = true := hsource
  exact h.isDirectory_of hempty

theorem Alike.isDirectory_eq (names : List FileName) :
    files.isDirectory (source.joinAll names) = files'.isDirectory (source'.joinAll names) := by
  rw [Bool.eq_iff_iff]
  exact ⟨h.isDirectory_of, h.symm.isDirectory_of⟩

end Alike

/-- What is in nobody's way is in the way of no entry that is alike. -/
theorem Clear.alike {made : FileSystem} (h : Clear made target front name entry) (halike : entry.Alike entry') :
    Clear made target front name entry' := by
  cases halike with
  | same => exact h
  | directory mode mode' =>
    obtain ⟨base, hbase, hlive, haround, -⟩ := h.places
    refine ⟨.inl ⟨mode', rfl⟩, h.accepted, base, hbase, hlive, haround, ?_⟩
    rintro ⟨data, hdata⟩
    cases hdata

/-! ## What is brought to a place -/

/-- The directory that is made in a directory. -/
def madeIn : Option Node → Option Node
  | some (.directory mode _) => some (.directory mode.newDirectory [])
  | _ => none

/-- What is left at a place where something was, perhaps, and to which the source has something to bring, perhaps, in the
directory around the place. For a directory one is made if nothing was there; a file is copied, except to a device. -/
def brought (old : Option Node) (entry : Option Entry) (around : Option Node) : Option Node :=
  match entry, old with
  | some (.directory _), none => madeIn around
  | some (.file _), some .device => some .device
  | some (.file data), _ => some (.file data.copy)
  | _, old => old

theorem brought_directory (old around : Option Node) (mode mode' : Mode) :
    brought old (some (.directory mode)) around = brought old (some (.directory mode')) around := by
  cases old <;> rfl

theorem Alike.brought_eq (h : Alike files source files' source') (names : List FileName) (old around : Option Node) :
    brought old (files.entryAt (source.joinAll names)) around =
      brought old (files'.entryAt (source'.joinAll names)) around := by
  by_cases hleads : files.Leads (source.joinAll names)
  · obtain ⟨spot, hfind⟩ := hleads
    have hstat := stat_eq_ok_iff.2 ⟨spot, hfind, rfl⟩
    obtain ⟨entry', hstat', halike⟩ := h.stat hstat
    rw [entryAt_of_stat hstat, entryAt_of_stat hstat']
    generalize files.entryOf spot.node = entry at halike
    cases halike with
    | directory mode mode' => exact brought_directory old around mode mode'
    | same => rfl
  · rw [entryAt_of_not_leads hleads, entryAt_of_not_leads fun hleads' => hleads ((h.leads names).2 hleads')]

/-- What is at a place below the target in the end. The directory around may be looked at later, since it has its permission
bits from the beginning. -/
theorem Finishes.bare?_eq_brought (h : Finishes files source target trace progress) (hgrows : progress.files.Grows final)
    (hbelow : (files.withDirectory target).Below target names place) :
    progress.files.bare? place = brought ((files.withDirectory target).bare? place) (files.entryAt (source.joinAll names))
      (final.bare? place.tail) := by
  by_cases hleads : files.Leads (source.joinAll names)
  · have hmem : names ∈ trace := h.mem_iff.2 ⟨hbelow.ne_nil, hleads⟩
    rcases h.place hmem hbelow with ⟨hkept, hthere, hwhy⟩ | hmirrored
    · rw [hkept]
      obtain ⟨spot, hfind⟩ := hleads
      have hstat := stat_eq_ok_iff.2 ⟨spot, hfind, rfl⟩
      obtain ⟨old, hold⟩ := Option.ne_none_iff_exists'.1 hthere
      rw [hold] at hwhy ⊢
      rw [entryAt_of_stat hstat]
      generalize files.entryOf spot.node = entry at hstat
      cases entry with
      | file data =>
        rcases hwhy with hdirectory | hdevice
        · exact absurd hdirectory (not_isDirectory_of_file hstat)
        · cases hdevice
          rfl
      | _ => rfl
    · cases hmirrored with
      | directory hsource hnone haround hnew =>
        obtain ⟨entries', haround'⟩ := hgrows.directory haround
        rw [hnew, hnone, entryAt_of_stat hsource, bare?_of_node? haround']
        rfl
      | file hsource hold hnew =>
        rw [hnew, entryAt_of_stat hsource]
        rcases hold with hnone | ⟨old, hold⟩
        · rw [hnone]
          rfl
        · rw [hold]
          rfl
  · have hplace : ∀ names', (files.withDirectory target).Below target names' place →
        ¬ files.Leads (source.joinAll names') := by
      intro names' hbelow'
      rwa [hbelow.names_eq hbelow']
    rw [h.bare?_of_not_leads hplace, entryAt_of_not_leads hleads]
    rfl

/-! ## Two deployments -/

theorem eq_of_bare? (hbare : ∀ place, files.bare? place = files'.bare? place) (hshared : files.shared = files'.shared)
    (hworking : files.workingDirectory = files'.workingDirectory) : files = files' := by
  have hroot : files.root = files'.root := root_eq_of_bare hbare
  cases files
  cases files'
  cases hroot
  cases hshared
  cases hworking
  rfl

/-- What holds of all places: of those below a target if it holds of the directory around them, and of all others. -/
theorem forall_places (made : FileSystem) (target : Path) {p : Location → Prop}
    (hbelow : ∀ names place, made.Below target names place → p place.tail → p place)
    (helse : ∀ place, (∀ names, ¬ made.Below target names place) → p place) (place : Location) : p place := by
  have hstep : ∀ place, (place ≠ [] → p place.tail) → p place := by
    intro place htail
    by_cases hplace : ∃ names, made.Below target names place
    · obtain ⟨names, hplace⟩ := hplace
      exact hbelow names place hplace (htail hplace.place_ne_nil)
    · exact helse place fun names h => hplace ⟨names, h⟩
  induction place with
  | nil => exact hstep [] fun hnil => absurd rfl hnil
  | cons name parent ih => exact hstep (name :: parent) fun _ => ih

/-- Two deployments of sources that look alike leave the same. The induction is on the place, because the permission bits of
a new directory depend on those of the directory around it. -/
theorem Finishes.files_eq (h : Finishes files source target trace progress)
    (h' : Finishes files source' target trace' progress') (halike : Alike files source files source') :
    progress.files = progress'.files := by
  have hplaces : ∀ place, progress.files.bare? place = progress'.files.bare? place := by
    refine forall_places (files.withDirectory target) target (fun names place hbelow htail => ?_) fun place hnot => ?_
    · rw [h.bare?_eq_brought (.refl _) hbelow, h'.bare?_eq_brought (.refl _) hbelow, htail, halike.brought_eq]
    · rw [h.bare?_of_not_leads fun names hbelow => absurd hbelow (hnot names),
        h'.bare?_of_not_leads fun names hbelow => absurd hbelow (hnot names)]
  have hshared := h.confined.shared.trans h'.confined.shared.symm
  exact eq_of_bare? hplaces hshared (h.confined.workingDirectory.trans h'.confined.workingDirectory.symm)

/-- Deployments of sources that look alike handle the same entries. -/
theorem Finishes.trace_perm (h : Finishes files source target trace progress)
    (h' : Finishes files' source' target' trace' progress') (halike : Alike files source files' source') :
    trace.Perm trace' := by
  refine (List.perm_ext_iff_of_nodup h.complete.nodup h'.complete.nodup).2 fun names => ?_
  rw [h.mem_iff, h'.mem_iff, halike.leads]

/-- The directories of the source are the same all along. -/
theorem Finishes.isDirectory_eq (h : Finishes files source target trace progress) (hmem : names ∈ trace) :
    progress.files.isDirectory (source.joinAll names) = files.isDirectory (source.joinAll names) :=
  FileSystem.isDirectory_eq h.underway.grows (h.mem_iff.1 hmem).2

/-- As many files are copied as the source has. -/
theorem Finishes.copiedFiles_eq (h : Finishes files source target trace progress) :
    progress.report.copiedFiles = trace.countP fun names => !files.isDirectory (source.joinAll names) := by
  rw [h.handles.report h.underway.plain h.complete.nodup, begun, Nat.zero_add]
  exact List.countP_congr fun names hnames => by rw [h.isDirectory_eq hnames]

/-- Of sources that look alike as many files are copied, wherever they are deployed. -/
theorem Finishes.copiedFiles_eq_of_alike (h : Finishes files source target trace progress)
    (h' : Finishes files' source' target' trace' progress') (halike : Alike files source files' source') :
    progress.report.copiedFiles = progress'.report.copiedFiles := by
  rw [h.copiedFiles_eq, h'.copiedFiles_eq, (h.trace_perm h' halike).countP_eq]
  exact List.countP_congr fun names _ => by rw [halike.isDirectory_eq]

/-- Two deployments of sources that look alike count the same, because they have handled the same entries. -/
theorem Finishes.report_eq (h : Finishes files source target trace progress)
    (h' : Finishes files source' target trace' progress') (halike : Alike files source files source') :
    progress.report = progress'.report := by
  have hnew : ∀ names ∈ trace, isNew source target (begun files target).files progress.files names =
      isNew source' target (begun files target).files progress'.files names := by
    intro names hnames
    have hnames' := (h.trace_perm h' halike).mem_iff.1 hnames
    rw [isNew, isNew, h.isDirectory_eq hnames, h'.isDirectory_eq hnames', halike.isDirectory_eq]
  have hcount : trace.countP (isNew source target (begun files target).files progress.files) =
      trace'.countP (isNew source' target (begun files target).files progress'.files) := by
    rw [← (h.trace_perm h' halike).countP_eq]
    exact List.countP_congr fun names hnames => by rw [hnew names hnames]
  have hreport := congrArg Report.createdDirectories (h.handles.report h.underway.plain h.complete.nodup)
  have hreport' := congrArg Report.createdDirectories (h'.handles.report h'.underway.plain h'.complete.nodup)
  have hcreated : progress.report.createdDirectories = progress'.report.createdDirectories :=
    hreport.trans ((congrArg _ hcount).trans hreport'.symm)
  exact congrArg₂ Report.mk (h.copiedFiles_eq_of_alike h' halike) hcreated

end Deployment

end ConsoleKit
