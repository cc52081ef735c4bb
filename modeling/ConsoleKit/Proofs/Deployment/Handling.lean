import ConsoleKit.Proofs.Deployment.Confinement
import ConsoleKit.Proofs.Deployment.Course
import ConsoleKit.Proofs.Files.Forward

/-!
# What handling an entry does

To provide a directory in one that is there is at most to make it, and counts one then (`provideDirectory_join`). To handle an
entry changes one place at most, the one below the target to which the names of the entry lead, and counts one file or at
most one directory (`handleEntry_effect`). From this it follows what a list of entries that are handled leaves as it was
(`Handles.bare?_of_not_mem`).
-/

namespace ConsoleKit

open FileSystem

namespace Deployment

variable {files : FileSystem} {source target path : Path} {names front : List FileName} {name : FileName}
  {progress progress' : Progress} {place : Location} {above : List Path.Pieces}

/-! ## What is missing -/

theorem isMissing_iff : isMissing files path = true ↔ ¬ Provided files path := by
  unfold isMissing Provided
  rw [Bool.and_eq_true, ← contains_eq_true_iff]
  cases path.isEmpty <;> cases files.contains path <;> simp

/-- The missing paths: the path and its ancestors up to the first that exists or has no spelling. -/
def missingPaths (files : FileSystem) (path : Path) (above : List Path.Pieces) : List Path :=
  (path :: above.map Path.Pieces.path).takeWhile (isMissing files)

theorem length_missingPaths (files : FileSystem) (path : Path) (above : List Path.Pieces) :
    (missingPaths files path above).length = missingCount files path above := by
  unfold missingPaths missingCount
  rw [List.takeWhile_cons]
  split
  · rw [List.takeWhile_map, List.length_cons, List.length_map]
    rfl
  · rfl

theorem missingPaths_of_provided (h : Provided files path) : missingPaths files path above = [] := by
  rw [missingPaths, List.takeWhile_cons, if_neg fun hmissing => isMissing_iff.1 hmissing h]

theorem missingPaths_of_not_provided (h : ¬ Provided files path) :
    missingPaths files path above = path :: (above.map Path.Pieces.path).takeWhile (isMissing files) := by
  rw [missingPaths, List.takeWhile_cons, if_pos (isMissing_iff.2 h)]

/-- What can be made has no missing parent. -/
theorem provided_of_makeDirectory {parent : Path} {last : Path.Segment} {made : FileSystem}
    (hextends : Path.Extends parent path last) (hmake : files.makeDirectory path = .ok made) :
    Provided files parent := by
  by_cases hempty : parent.isEmpty
  · exact .inl hempty
  · exact .inr (leads_of_makeDirectory hextends hempty hmake)

/-! ## Directories that are provided -/

theorem provideDirectory_of_provided (h : Provided progress.files path) :
    provideDirectory path progress = .ok () progress := by
  have hzero : missingCount progress.files path path.pieces.ancestors = 0 := missingCount_eq_zero.2 h
  unfold provideDirectory
  simp only [hzero, if_true]

theorem provideDirectory_of_makeDirectory {made : FileSystem} (h : ¬ Provided progress.files path)
    (hmake : progress.files.makeDirectory path = .ok made) : provideDirectory path progress =
      .ok () ⟨made, ⟨progress.report.copiedFiles,
        progress.report.createdDirectories + missingCount progress.files path path.pieces.ancestors⟩⟩ := by
  have hzero : missingCount progress.files path path.pieces.ancestors ≠ 0 := fun hzero => h (missingCount_eq_zero.1 hzero)
  have hempty : ¬ path.isEmpty := fun hempty => h (.inl hempty)
  unfold provideDirectory
  simp only [hzero, if_false, makeDirectories_of_ok hempty hmake]

/-- One directory is missing if it can be made. -/
theorem missingCount_join {made : FileSystem} (hmake : files.makeDirectory (path.join name) = .ok made)
    (hmissing : ¬ Provided files (path.join name)) :
    missingCount files (path.join name) (path.join name).pieces.ancestors = 1 := by
  obtain ⟨parent, above, hancestors, hparent⟩ := Path.ancestors_join path name
  have hprovided : Provided files parent.path := hparent ▸ provided_of_makeDirectory (path.extends_join name) hmake
  rw [← length_missingPaths, hancestors, missingPaths_of_not_provided hmissing]
  show (path.join name :: missingPaths files parent.path above).length = 1
  rw [missingPaths_of_provided hprovided]
  rfl

/-- To provide a directory for an entry is to make it if nothing is there. -/
theorem provideDirectory_join (h : Provided progress.files path)
    (hprovide : provideDirectory (path.join name) progress = .ok () progress') :
    progress.files.Leads (path.join name) ∧ progress' = progress ∨
      ∃ made, progress.files.makeDirectory (path.join name) = .ok made ∧ progress' =
        ⟨made, ⟨progress.report.copiedFiles, progress.report.createdDirectories + 1⟩⟩ := by
  by_cases hprovided : Provided progress.files (path.join name)
  · rw [provideDirectory_of_provided hprovided] at hprovide
    cases hprovide
    exact .inl ⟨hprovided.resolve_left (by simp), rfl⟩
  · rcases makeDirectories_join h name with ⟨made, hmake, -⟩ | hsame
    · rw [provideDirectory_of_makeDirectory hprovided hmake, missingCount_join hmake hprovided] at hprovide
      cases hprovide
      exact .inr ⟨made, hmake, rfl⟩
    · have hmeets := provideDirectory_meets (path.join name) progress
      rw [hprovide] at hmeets
      have hfiles : progress'.files = progress.files := hmeets.always.trans hsame
      have hleads : Provided progress'.files (path.join name) := hmeets.success () rfl
      rw [hfiles] at hleads
      exact absurd hleads hprovided

/-! ## One entry -/

/-- What becomes of an entry of the source at its place below the target, and what is counted for it. -/
inductive Effect (source : Path) (names : List FileName) (place : Location) (before after : Progress) : Prop where
  /-- For a directory something is there already. -/
  | present {mode : Mode} (hsource : before.files.stat (source.joinAll names) = .ok (.directory mode))
      (hold : before.files.bare? place ≠ none) (hsame : after = before)
  /-- For a directory one is made. -/
  | directory {mode around : Mode} {entries : List (FileName × Node)}
      (hsource : before.files.stat (source.joinAll names) = .ok (.directory mode))
      (hnone : before.files.bare? place = none)
      (haround : before.files.node? place.tail = some (.directory around entries))
      (hput : PutAt before.files after.files place (.directory around.newDirectory []))
      (hreport : after.report = ⟨before.report.copiedFiles, before.report.createdDirectories + 1⟩)
  /-- A file is copied to a device, which stays as it is. -/
  | device {ref : FileRef} {data : FileData} (hsource : before.files.ReadsFile (source.joinAll names) ref data)
      (hold : before.files.bare? place = some .device) (hsame : after.files = before.files)
      (hreport : after.report = ⟨before.report.copiedFiles + 1, before.report.createdDirectories⟩)
  /-- A file is copied to its place. -/
  | file {ref : FileRef} {data : FileData} (hsource : before.files.ReadsFile (source.joinAll names) ref data)
      (hold : before.files.bare? place = none ∨ ∃ old, before.files.bare? place = some (.file old))
      (hput : PutAt before.files after.files place
        (.file (FileData.copy ⟨if ref = .own place then [] else data.content, data.mode⟩)))
      (hreport : after.report = ⟨before.report.copiedFiles + 1, before.report.createdDirectories⟩)

/-- To handle an entry has one effect, at its place. -/
theorem handleEntry_effect {inner : Option Job} (hplain : progress.files.PlainBelow target)
    (hprovided : Provided progress.files (target.joinAll front))
    (h : handleEntry ((Job.mk source target).along front) name progress = .ok inner progress') :
    ∃ place, progress.files.Below target (front ++ [name]) place ∧
      Effect source (front ++ [name]) place progress progress' := by
  have hne : front ++ [name] ≠ [] := by simp
  rcases handleEntry_ok_inv h with ⟨mode, hstat, -, hprovide⟩ | ⟨entry, -, -, -, hcopy⟩
  · rw [Job.inner_along] at hstat
    have hprovide' : provideDirectory ((target.joinAll front).join name) progress = .ok () progress' := hprovide
    rcases provideDirectory_join hprovided hprovide' with ⟨⟨spot', hfind'⟩, hsame⟩ | ⟨made, hmake, rfl⟩
    · rw [← Path.joinAll_concat] at hfind'
      obtain ⟨place, hbelow, ⟨node, hnode, -⟩ | ⟨_, _, _, _, harrival⟩⟩ :=
        below_of_walk hplain.linkFreeBelow hne (find_eq_ok_iff.1 hfind')
      · refine ⟨place, hbelow, .present hstat ?_ hsame⟩
        rw [bare?_of_node? hnode]
        simp
      · cases harrival
    · rw [← Path.joinAll_concat] at hmake
      obtain ⟨place, around, entries, hbelow, hnone, haround, hput⟩ := makeDirectory_putAt hplain.linkFreeBelow hne hmake
      exact ⟨place, hbelow, .directory hstat hnone haround hput rfl⟩
  · rw [Job.inner_along] at hcopy
    unfold copyFile at hcopy
    cases hcall : progress.files.copyFile (source.joinAll (front ++ [name])) (target.joinAll (front ++ [name])) with
    | error error =>
      simp only [Job.along, hcall] at hcopy
      cases hcopy
    | ok files =>
      simp only [Job.along, hcall] at hcopy
      cases hcopy
      obtain ⟨place, hbelow, ⟨hsame, hold⟩ | ⟨ref, data, hreads, hold, hput⟩⟩ := copyFile_putAt hplain hne hcall
      · obtain ⟨ref, data, -, hreads, -⟩ := copyFile_inv hcall
        exact ⟨place, hbelow, .device hreads hold hsame rfl⟩
      · exact ⟨place, hbelow, .file hreads hold hput rfl⟩

/-- No place but that of the entry has changed. -/
theorem Effect.bare?_of_ne {before after : Progress} {place' : Location} (h : Effect source names place before after)
    (hne : place' ≠ place) : after.files.bare? place' = before.files.bare? place' := by
  cases h with
  | present _ _ hsame => rw [hsame]
  | directory _ _ _ hput _ => rw [hput.bare?_eq, if_neg hne]
  | device _ _ hsame _ => rw [hsame]
  | file _ _ hput _ => rw [hput.bare?_eq, if_neg hne]

/-- Something is at the place of an entry that was handled. -/
theorem Effect.bare?_ne_none {before after : Progress} (h : Effect source names place before after) :
    after.files.bare? place ≠ none := by
  cases h with
  | present _ hold hsame => rwa [hsame]
  | directory _ _ _ hput _ =>
    rw [hput.bare?_eq, if_pos rfl]
    simp
  | device _ hold hsame _ =>
    rw [hsame, hold]
    simp
  | file _ _ hput _ =>
    rw [hput.bare?_eq, if_pos rfl]
    simp

/-- An entry that is handled is a directory, or a file for which no directory is there. -/
theorem Effect.kind {before after : Progress} (h : Effect source names place before after) :
    (∃ mode, before.files.stat (source.joinAll names) = .ok (.directory mode)) ∨
      (∃ data, before.files.stat (source.joinAll names) = .ok (.file data)) ∧
        ∀ mode, before.files.bare? place ≠ some (.directory mode []) := by
  cases h with
  | present hsource _ _ => exact .inl ⟨_, hsource⟩
  | directory hsource _ _ _ _ => exact .inl ⟨_, hsource⟩
  | device hsource hold _ _ =>
    refine .inr ⟨⟨_, stat_eq_file_iff.2 ⟨_, hsource⟩⟩, fun mode hmode => ?_⟩
    rw [hold] at hmode
    cases hmode
  | file hsource hold _ _ =>
    refine .inr ⟨⟨_, stat_eq_file_iff.2 ⟨_, hsource⟩⟩, fun mode hmode => ?_⟩
    rcases hold with hnone | ⟨old, hold⟩
    · rw [hnone] at hmode
      cases hmode
    · rw [hold] at hmode
      cases hmode

/-! ## Many entries -/

theorem Handles.ne_nil {root : Job} {trace : List (List FileName)} {a b : Progress} (h : Handles root trace a b)
    (hmem : names ∈ trace) : names ≠ [] := by
  induction h with
  | nil progress => cases hmem
  | cons _ _ _ ih =>
    rcases List.mem_cons.1 hmem with rfl | hmem
    · simp
    · exact ih hmem

/-- What is at a place below the target stays as it is until the entry of the source with its names is handled. -/
theorem Handles.bare?_of_not_mem {trace : List (List FileName)} {a b : Progress}
    (h : Handles ⟨source, target⟩ trace a b) (hplain : a.files.PlainBelow target)
    (hbelow : a.files.Below target names place) (hmem : names ∉ trace) : b.files.bare? place = a.files.bare? place := by
  induction h with
  | nil progress => rfl
  | @cons front name inner trace a b c hprovided hentry hrest ih =>
    obtain ⟨place', hbelow', heffect⟩ := handleEntry_effect hplain hprovided hentry
    have hrun := handleEntry_runs hprovided hentry
    have hne : place ≠ place' := by
      rintro rfl
      exact hmem (hbelow.names_eq hbelow' ▸ .head _)
    have hrest := ih ((confined_of_runs hplain hrun).plainBelow hplain) (hbelow.grows hrun.grows)
      fun hmem' => hmem (.tail _ hmem')
    exact hrest.trans (heffect.bare?_of_ne hne)

/-- Something is below a target without links where a place for it has something. -/
theorem leads_of_below (hfree : files.LinkFreeBelow target) (hbelow : files.Below target names place)
    (hplace : files.bare? place ≠ none) : files.Leads (target.joinAll names) := by
  obtain ⟨node, hnode⟩ := Option.ne_none_iff_exists'.1 fun hnone => hplace (bare?_eq_none_iff.2 hnone)
  exact ⟨_, hbelow.find hfree hnode⟩

/-- The place of a path below a target without links, if it leads somewhere. -/
theorem below_of_leads (hfree : files.LinkFreeBelow target) (hne : names ≠ []) (h : files.Leads (target.joinAll names)) :
    ∃ place, files.Below target names place ∧ files.bare? place ≠ none := by
  obtain ⟨spot, hfind⟩ := h
  obtain ⟨place, hbelow, ⟨node, hnode, -⟩ | ⟨_, _, _, _, harrival⟩⟩ := below_of_walk hfree hne (find_eq_ok_iff.1 hfind)
  · refine ⟨place, hbelow, ?_⟩
    rw [bare?_of_node? hnode]
    simp
  · cases harrival

/-- To handle one entry does not bring another below the target. -/
theorem Effect.contains_eq {names' : List FileName} {before after : Progress}
    (h : Effect source names place before after) (hplain : before.files.PlainBelow target)
    (hrun : Runs source target before.files after.files) (hbelow : before.files.Below target names place)
    (hnil : names' ≠ []) (hne : names' ≠ names) :
    after.files.contains (target.joinAll names') = before.files.contains (target.joinAll names') := by
  have hconfined := confined_of_runs hplain hrun
  rw [Bool.eq_iff_iff, contains_eq_true_iff, contains_eq_true_iff]
  constructor
  · intro hleads
    obtain ⟨place', hbelow', hplace'⟩ := below_of_leads (hconfined.plainBelow hplain).linkFreeBelow hnil hleads
    have hbefore := hconfined.below hbelow'
    have hother : place' ≠ place := by
      rintro rfl
      exact hne (hbelow.names_eq hbefore)
    rw [h.bare?_of_ne hother] at hplace'
    exact leads_of_below hplain.linkFreeBelow hbefore hplace'
  · intro hleads
    exact hleads.grows hrun.grows

/-- The directories that entries were handled for without one being there. -/
def isNew (source target : Path) (before after : FileSystem) (names : List FileName) : Bool :=
  after.isDirectory (source.joinAll names) && !before.contains (target.joinAll names)

/-- What is counted for an entry. -/
theorem Effect.report {before after : Progress} (h : Effect source names place before after)
    (hplain : before.files.PlainBelow target) (hbelow : before.files.Below target names place) : after.report =
      ⟨before.report.copiedFiles + (if before.files.isDirectory (source.joinAll names) then 0 else 1),
        before.report.createdDirectories + (if isNew source target before.files before.files names then 1 else 0)⟩ := by
  have hfile : ∀ ref data, before.files.ReadsFile (source.joinAll names) ref data →
      before.files.isDirectory (source.joinAll names) = false := by
    intro ref data hreads
    rw [← Bool.not_eq_true, isDirectory_iff]
    rintro ⟨mode, hmode⟩
    rw [stat_eq_file_iff.2 ⟨ref, hreads⟩] at hmode
    cases hmode
  cases h with
  | @present mode hsource hold hsame =>
    have hdirectory := isDirectory_iff.2 ⟨mode, hsource⟩
    have hcontains := contains_eq_true_iff.2 (leads_of_below hplain.linkFreeBelow hbelow hold)
    rw [hsame]
    simp [isNew, hdirectory, hcontains]
  | @directory mode around entries hsource hnone haround hput hreport =>
    have hdirectory := isDirectory_iff.2 ⟨mode, hsource⟩
    have hcontains : before.files.contains (target.joinAll names) = false := by
      rw [← Bool.not_eq_true, contains_eq_true_iff]
      intro hleads
      obtain ⟨place', hbelow', hplace'⟩ := below_of_leads hplain.linkFreeBelow hbelow.ne_nil hleads
      exact hplace' (hbelow.place_eq hbelow' ▸ hnone)
    rw [hreport]
    simp [isNew, hdirectory, hcontains]
  | device hsource _ _ hreport =>
    rw [hreport]
    simp [isNew, hfile _ _ hsource]
  | file hsource _ _ hreport =>
    rw [hreport]
    simp [isNew, hfile _ _ hsource]

/-- What is counted for entries that are handled, none of them twice: the files among them, and the directories for which
none was there in the beginning. -/
theorem Handles.report {trace : List (List FileName)} {a b : Progress} (h : Handles ⟨source, target⟩ trace a b)
    (hplain : a.files.PlainBelow target) (hnodup : trace.Nodup) : b.report =
      ⟨a.report.copiedFiles + trace.countP (fun names => !b.files.isDirectory (source.joinAll names)),
        a.report.createdDirectories + trace.countP (isNew source target a.files b.files)⟩ := by
  induction h with
  | nil progress => rfl
  | @cons front name inner trace a b c hprovided hentry hrest ih =>
    obtain ⟨hnotMem, hnodup⟩ := List.nodup_cons.1 hnodup
    obtain ⟨place, hbelow, heffect⟩ := handleEntry_effect hplain hprovided hentry
    have hrun := handleEntry_runs hprovided hentry
    have hleads := (handleEntry_ok hentry).1
    rw [Job.inner_along] at hleads
    have hsame : c.files.isDirectory (source.joinAll (front ++ [name])) =
        a.files.isDirectory (source.joinAll (front ++ [name])) := isDirectory_eq (hrun.grows.trans hrest.runs.grows) hleads
    have hothers : trace.countP (isNew source target b.files c.files) = trace.countP (isNew source target a.files c.files) := by
      refine List.countP_congr fun names hnames => ?_
      have hne : names ≠ front ++ [name] := fun heq => hnotMem (heq ▸ hnames)
      unfold isNew
      rw [heffect.contains_eq hplain hrun hbelow (hrest.ne_nil hnames) hne]
    have hfirst : isNew source target a.files c.files (front ++ [name]) =
        isNew source target a.files a.files (front ++ [name]) := by
      unfold isNew
      rw [hsame]
    rw [ih ((confined_of_runs hplain hrun).plainBelow hplain) hnodup, heffect.report hplain hbelow, hothers,
      List.countP_cons, List.countP_cons, hfirst, hsame]
    refine congrArg₂ Report.mk ?_ ?_
    · cases a.files.isDirectory (source.joinAll (front ++ [name])) with
      | true => simp
      | false =>
        simp
        omega
    · cases isNew source target a.files a.files (front ++ [name]) with
      | false => simp
      | true =>
        simp
        omega

end Deployment

end ConsoleKit
