import ConsoleKit.Proofs.Deployment.Course
import ConsoleKit.Proofs.Files.DotAtEnd

/-!
# Two deployments side by side

Below two spellings of one target the calls of a deployment come to the same: what is joined to a path ends in a name, however
the path is spelled. So two deployments that have provided the target go on call by call in the same way
(`descend_matches`). The induction is on the parts of a deployment, as they are defined; that the system accepts the paths
of both is asked for what the source has in the end, since the file system only grows.
-/

namespace ConsoleKit

open FileSystem

namespace Deployment

variable {files final : FileSystem} {source target target' path path' : Path} {name : FileName} {progress : Progress}

/-! ## Two attempts side by side -/

/-- Two attempts come to the same: both succeed, with related values, or both fail, whatever the failures say. -/
inductive Attempt.Matches {α : Type} (related : α → α → Prop) : Attempt α → Attempt α → Prop where
  | ok {value value' : α} (hrelated : related value value') (progress : Progress) :
      Matches related (.ok value progress) (.ok value' progress)
  | fail (failure failure' : Failure) (progress : Progress) :
      Matches related (.fail failure progress) (.fail failure' progress)

theorem Attempt.Matches.andThen {α β : Type} {related : α → α → Prop} {related' : β → β → Prop} {attempt attempt' : Attempt α}
    {next next' : α → Progress → Attempt β} (h : attempt.Matches related attempt')
    (hnext : ∀ value value' progress, attempt = .ok value progress → related value value' →
      (next value progress).Matches related' (next' value' progress)) :
    (attempt.andThen next).Matches related' (attempt'.andThen next') := by
  cases h with
  | ok hrelated progress => exact hnext _ _ progress rfl hrelated
  | fail failure failure' progress => exact .fail failure failure' progress

/-! ## Growth -/

theorem Attempt.andThen_grows {α β : Type} (attempt : Attempt α) {next : α → Progress → Attempt β}
    (h : ∀ value (progress : Progress), progress.files.Grows (next value progress).progress.files) :
    attempt.progress.files.Grows (attempt.andThen next).progress.files := by
  rcases attempt.ok_or_fail with ⟨value, progress, rfl⟩ | ⟨failure, progress, rfl⟩
  · exact h value progress
  · exact .refl _

theorem provideDirectory_grows (path : Path) (progress : Progress) :
    progress.files.Grows (provideDirectory path progress).progress.files := by
  rw [(provideDirectory_meets path progress).always]
  exact (withDirectory_madeAt progress.files path).grows

theorem copyFile_grows_progress (read written : Path) (progress : Progress) :
    progress.files.Grows (copyFile read written progress).progress.files := by
  rcases (copyFile_meets read written progress).always with hsame | hcopy
  · rw [hsame]
    exact .refl _
  · exact copyFile_grows hcopy

theorem handleEntry_grows (job : Job) (name : FileName) (progress : Progress) :
    progress.files.Grows (handleEntry job name progress).progress.files := by
  cases hstat : progress.files.stat (job.inner name).source with
  | error error =>
    rw [handleEntry, hstat]
    exact .refl _
  | ok entry =>
    by_cases hdirectory : ∃ mode, entry = .directory mode
    · obtain ⟨mode, rfl⟩ := hdirectory
      rw [handleEntry_directory hstat]
      exact (provideDirectory_grows _ progress).trans (Attempt.andThen_grows _ fun _ _ => .refl _)
    · rw [handleEntry_other hstat fun mode heq => hdirectory ⟨mode, heq⟩]
      exact (copyFile_grows_progress _ _ progress).trans (Attempt.andThen_grows _ fun _ _ => .refl _)

theorem handleEntries_grows (job : Job) (listed : List FileName) (progress : Progress) :
    progress.files.Grows (handleEntries job listed progress).progress.files := by
  induction listed generalizing progress with
  | nil => exact .refl _
  | cons name listed ih =>
    refine (handleEntry_grows job name progress).trans (Attempt.andThen_grows _ fun _ progress => ?_)
    exact (ih progress).trans (Attempt.andThen_grows _ fun _ _ => .refl _)

theorem handleDirectory_grows (order : ListingOrder) (job : Job) (progress : Progress) :
    progress.files.Grows (handleDirectory order job progress).progress.files := by
  unfold handleDirectory
  split
  · exact .refl _
  · exact handleEntries_grows job _ progress

theorem forEach_grows {act : Job → Progress → Attempt Unit}
    (h : ∀ job (progress : Progress), progress.files.Grows (act job progress).progress.files) (jobs : List Job)
    (progress : Progress) :
    progress.files.Grows (Attempt.forEach act jobs progress).progress.files := by
  induction jobs generalizing progress with
  | nil => exact .refl _
  | cons job jobs ih => exact (h job progress).trans (Attempt.andThen_grows _ fun _ => ih)

theorem descend_grows (order : ListingOrder) (room : Nat) (job : Job) (progress : Progress) :
    progress.files.Grows (descend order room job progress).progress.files := by
  induction room generalizing job progress with
  | zero => exact .refl _
  | succ room ih =>
    refine (handleDirectory_grows order job progress).trans (Attempt.andThen_grows _ fun inners progress => ?_)
    exact forEach_grows ih inners.reverse progress

/-! ## Directories of the target -/

theorem isMissing_eq (hempty : path.isEmpty = path'.isEmpty) (hleads : files.Leads path ↔ files.Leads path') :
    isMissing files path = isMissing files path' := by
  have hcontains : files.contains path = files.contains path' := by
    rw [Bool.eq_iff_iff, contains_eq_true_iff, contains_eq_true_iff, hleads]
  rw [isMissing, isMissing, hempty, hcontains]

theorem missingCount_eq {above above' : List Path.Pieces} (h : isMissing files path = isMissing files path')
    (habove : List.Forall₂ (fun parent parent' => parent.path.Interchangeable parent'.path) above above') :
    missingCount files path above = missingCount files path' above' := by
  have hlength : (above.takeWhile fun parent => isMissing files parent.path).length =
      (above'.takeWhile fun parent => isMissing files parent.path).length := by
    induction habove with
    | nil => rfl
    | cons hparent _ ih =>
      rw [List.takeWhile_cons, List.takeWhile_cons, isMissing_eq hparent.isEmpty (hparent.leads_iff files)]
      split
      · rw [List.length_cons, List.length_cons, ih]
      · rfl
  rw [missingCount, missingCount, h, hlength]

theorem provideDirectory_matches
    (hcount : missingCount progress.files path path.pieces.ancestors = missingCount progress.files path' path'.pieces.ancestors)
    (hmade : MadeEqually progress.files path path') :
    (provideDirectory path progress).Matches (fun _ _ => True) (provideDirectory path' progress) := by
  unfold MadeEqually at hmade
  unfold provideDirectory
  simp only [hcount]
  split
  · exact .ok trivial progress
  · generalize progress.files.makeDirectories path path.pieces.ancestors = result at hmade
    generalize progress.files.makeDirectories path' path'.pieces.ancestors = result' at hmade
    obtain ⟨result, made⟩ := result
    obtain ⟨result', made'⟩ := result'
    obtain ⟨rfl, hiff⟩ := hmade
    cases result with
    | ok _ =>
      obtain rfl : result' = .ok () := hiff.1 rfl
      exact .ok trivial _
    | error error =>
      cases result' with
      | ok _ => cases hiff.2 rfl
      | error error' => exact .fail _ _ _

/-- Under a path that the system does not accept nothing is made. -/
theorem provideDirectory_of_not_accepted (hempty : ¬ path.isEmpty) (h : checkPath path ≠ .ok ()) (progress : Progress) :
    ∃ failure, provideDirectory path progress = .fail failure progress := by
  have hprovided : ¬ Provided progress.files path := fun hprovided =>
    hprovided.elim hempty fun hleads => h (checkPath_of_leads hleads)
  have hzero : missingCount progress.files path path.pieces.ancestors ≠ 0 := fun hzero =>
    hprovided (missingCount_eq_zero.1 hzero)
  have hfiles : (progress.files.makeDirectories path path.pieces.ancestors).2 = progress.files :=
    makeDirectories_of_not_accepted h path.pieces.ancestors
  have hfind : (progress.files.makeDirectories path path.pieces.ancestors).1 = .ok () →
      Provided (progress.files.makeDirectories path path.pieces.ancestors).2 path := find_of_makeDirectories
  unfold provideDirectory
  simp only [hzero, if_false]
  generalize progress.files.makeDirectories path path.pieces.ancestors = result at hfiles hfind
  obtain ⟨_ | _, made⟩ := result
  · obtain rfl : made = progress.files := hfiles
    exact ⟨_, rfl⟩
  · obtain rfl : made = progress.files := hfiles
    exact absurd (hfind rfl) hprovided

/-! ## Entries of the target -/

/-- Nothing is copied to a path that the system does not accept. -/
theorem copyFile_of_not_accepted (h : checkPath path ≠ .ok ()) (read : Path) (progress : Progress) :
    ∃ failure, copyFile read path progress = .fail failure progress := by
  unfold copyFile
  cases hcopy : progress.files.copyFile read path with
  | error error => exact ⟨_, rfl⟩
  | ok made =>
    obtain ⟨_, _, destination, -, hdestination, -⟩ := copyFile_inv hcopy
    rcases destination_inv hdestination with ⟨_, _, -, spot, hfind, -⟩ | ⟨_, _, -, hwalk⟩ | ⟨-, spot, hfind, -⟩
    · exact absurd (follow_of_find hfind).1 h
    · exact absurd (walk_eq_ok_iff.1 hwalk).1 h
    · exact absurd (follow_of_find hfind).1 h

theorem provideDirectory_matches_of_interchangeable (h : path.Same path') (hcheck : checkPath path = .ok ())
    (hcheck' : checkPath path' = .ok ()) (hends : path.Interchangeable path') (progress : Progress) :
    (provideDirectory path progress).Matches (fun _ _ => True) (provideDirectory path' progress) := by
  have hcount := missingCount_eq (isMissing_eq hends.isEmpty (hends.leads_iff progress.files)) (h.ancestors hcheck hcheck')
  exact provideDirectory_matches hcount (madeEqually_of_madeAlike h hends.toMadeAlike hcheck hcheck' progress.files)

theorem provideDirectory_join_matches (h : path.Same path')
    (haccepts : checkPath (path.join name) = .ok () ↔ checkPath (path'.join name) = .ok ()) (progress : Progress) :
    (provideDirectory (path.join name) progress).Matches (fun _ _ => True) (provideDirectory (path'.join name) progress) := by
  by_cases hcheck : checkPath (path.join name) = .ok ()
  · have hcheck' := haccepts.1 hcheck
    have hends := h.interchangeable_join hcheck hcheck'
    exact provideDirectory_matches_of_interchangeable (h.join name) hcheck hcheck' hends progress
  · obtain ⟨failure, hfail⟩ := provideDirectory_of_not_accepted (by simp) hcheck progress
    obtain ⟨failure', hfail'⟩ := provideDirectory_of_not_accepted (by simp) (fun hcheck' => hcheck (haccepts.2 hcheck')) progress
    rw [hfail, hfail']
    exact .fail failure failure' progress

theorem copyFile_join_matches (h : path.Same path')
    (haccepts : checkPath (path.join name) = .ok () ↔ checkPath (path'.join name) = .ok ()) (read : Path) (progress : Progress) :
    (copyFile read (path.join name) progress).Matches (fun _ _ => True) (copyFile read (path'.join name) progress) := by
  by_cases hcheck : checkPath (path.join name) = .ok ()
  · have hcalls : progress.files.copyFile read (path.join name) = progress.files.copyFile read (path'.join name) := by
      unfold FileSystem.copyFile destination
      rw [walk_join_eq h hcheck (haccepts.1 hcheck)]
    unfold copyFile
    rw [hcalls]
    split
    · exact .fail _ _ progress
    · exact .ok trivial _
  · obtain ⟨failure, hfail⟩ := copyFile_of_not_accepted hcheck read progress
    obtain ⟨failure', hfail'⟩ := copyFile_of_not_accepted (fun hcheck' => hcheck (haccepts.2 hcheck')) read progress
    rw [hfail, hfail']
    exact .fail failure failure' progress

/-! ## Jobs -/

/-- Jobs that are the same but for the spelling of the target. -/
def Retargeted (source target target' : Path) (jobs jobs' : List Job) : Prop :=
  ∃ heads : List (List FileName), jobs = heads.map (Job.mk source target).along ∧
    jobs' = heads.map (Job.mk source target').along

/-- What the source leads to in the end has paths in the target of which the system accepts both or none. -/
def AcceptsAlike (files : FileSystem) (source target target' : Path) : Prop :=
  ∀ names, files.Leads (source.joinAll names) →
    (checkPath (target.joinAll names) = .ok () ↔ checkPath (target'.joinAll names) = .ok ())

/-- Nothing is too long below a path that is not longer than the source. -/
theorem acceptsAlike_of_length_le (hcheck : checkPath target = .ok ()) (hcheck' : checkPath target' = .ok ())
    (hslash : source.endsInSlash = false) (hlength : target.spelling.length ≤ source.spelling.length)
    (hlength' : target'.spelling.length ≤ source.spelling.length) : AcceptsAlike files source target target' := by
  have hempty : ¬ source.isEmpty := by
    have hpos := List.length_pos_iff.2 (checkPath_eq_ok_iff.1 hcheck).2.1
    simpa [Path.isEmpty] using List.length_pos_iff.1 (hpos.trans_le hlength)
  intro names hleads
  have hlimit := length_of_leads hleads
  have haccepted : ∀ target : Path, checkPath target = .ok () → target.spelling.length ≤ source.spelling.length →
      checkPath (target.joinAll names) = .ok () := by
    intro target hcheck hlength
    have hnul := (checkPath_eq_ok_iff.1 hcheck).1
    have hspelled := Path.not_isEmpty_joinAll (not_isEmpty_of_checkPath hcheck) names
    exact checkPath_eq_ok_iff.2 ⟨Path.nul_notMem_joinAll hnul names, by simpa [Path.isEmpty] using hspelled,
      (Path.length_joinAll_le hempty hslash hlength names).trans_lt hlimit⟩
  exact iff_of_true (haccepted target hcheck hlength) (haccepted target' hcheck' hlength')

section Jobs

variable (h : target.Same target') (haccepts : AcceptsAlike final source target target')

include h haccepts

theorem handleEntry_matches (names : List FileName) (name : FileName) (progress : Progress)
    (hfinal : (handleEntry ((Job.mk source target).along names) name progress).progress.files.Grows final) :
    (handleEntry ((Job.mk source target).along names) name progress).Matches
      (fun inner inner' => Retargeted source target target' inner.toList inner'.toList)
      (handleEntry ((Job.mk source target').along names) name progress) := by
  have hgrows := (handleEntry_grows ((Job.mk source target).along names) name progress).trans hfinal
  have hsource : (((Job.mk source target').along names).inner name).source =
      (((Job.mk source target).along names).inner name).source := rfl
  cases hstat : progress.files.stat (((Job.mk source target).along names).inner name).source with
  | error error =>
    rw [handleEntry, handleEntry, hsource, hstat]
    exact .fail _ _ progress
  | ok entry =>
    have hjoined := h.joinAll names
    have haccepts' := haccepts (names ++ [name]) (by
      rw [Path.joinAll_concat]
      exact (leads_of_stat hstat).grows hgrows)
    rw [Path.joinAll_concat, Path.joinAll_concat] at haccepts'
    by_cases hdirectory : ∃ mode, entry = .directory mode
    · obtain ⟨mode, rfl⟩ := hdirectory
      rw [handleEntry_directory hstat, handleEntry_directory (hsource ▸ hstat)]
      refine (provideDirectory_join_matches hjoined haccepts' progress).andThen fun _ _ progress _ _ => .ok ?_ progress
      exact ⟨[names ++ [name]], by simp [Job.inner_along], by simp [Job.inner_along]⟩
    · have hentry : ∀ mode, entry ≠ .directory mode := fun mode heq => hdirectory ⟨mode, heq⟩
      rw [handleEntry_other hstat hentry, handleEntry_other (hsource ▸ hstat) hentry]
      exact (copyFile_join_matches hjoined haccepts' _ progress).andThen fun _ _ progress _ _ => .ok ⟨[], rfl, rfl⟩ progress

/-- Entries are handled alike. The induction is on the names. -/
theorem handleEntries_matches (names listed : List FileName) (progress : Progress)
    (hfinal : (handleEntries ((Job.mk source target).along names) listed progress).progress.files.Grows final) :
    (handleEntries ((Job.mk source target).along names) listed progress).Matches (Retargeted source target target')
      (handleEntries ((Job.mk source target').along names) listed progress) := by
  induction listed generalizing progress with
  | nil => exact .ok ⟨[], rfl, rfl⟩ progress
  | cons name listed ih =>
    unfold handleEntries at hfinal ⊢
    have hrest : ∀ (inner : Option Job) (progress : Progress), progress.files.Grows
        ((handleEntries ((Job.mk source target).along names) listed progress).andThen fun inners =>
          .ok (inner.toList ++ inners)).progress.files := fun _ progress =>
      (handleEntries_grows _ listed progress).trans (Attempt.andThen_grows _ fun _ _ => .refl _)
    refine (handleEntry_matches h haccepts names name progress ((Attempt.andThen_grows _ hrest).trans hfinal)).andThen
      fun inner inner' middle hfirst hinner => ?_
    rw [hfirst, Attempt.ok_andThen] at hfinal
    refine (ih middle ((Attempt.andThen_grows _ fun _ _ => .refl _).trans hfinal)).andThen fun inners inners' last _ hinners => ?_
    obtain ⟨heads, hheads, hheads'⟩ := hinner
    obtain ⟨heads', hrest, hrest'⟩ := hinners
    exact .ok ⟨heads ++ heads', by rw [hheads, hrest, List.map_append], by rw [hheads', hrest', List.map_append]⟩ last

theorem handleDirectory_matches (order : ListingOrder) (names : List FileName) (progress : Progress)
    (hfinal : (handleDirectory order ((Job.mk source target).along names) progress).progress.files.Grows final) :
    (handleDirectory order ((Job.mk source target).along names) progress).Matches (Retargeted source target target')
      (handleDirectory order ((Job.mk source target').along names) progress) := by
  unfold handleDirectory at hfinal ⊢
  have hsource : ((Job.mk source target').along names).source = ((Job.mk source target).along names).source := rfl
  rw [hsource]
  cases hlist : progress.files.list ((Job.mk source target).along names).source with
  | error error => exact .fail _ _ progress
  | ok listed =>
    rw [hlist] at hfinal
    exact handleEntries_matches h haccepts names _ progress hfinal

omit h haccepts in
/-- What is done alike for one job after the other is done alike for all. -/
theorem forEach_matches {act : Job → Progress → Attempt Unit}
    (hgrows : ∀ job (progress : Progress), progress.files.Grows (act job progress).progress.files)
    (hact : ∀ names progress, (act ((Job.mk source target).along names) progress).progress.files.Grows final →
      (act ((Job.mk source target).along names) progress).Matches (fun _ _ => True)
        (act ((Job.mk source target').along names) progress))
    (heads : List (List FileName)) (progress : Progress)
    (hfinal : (Attempt.forEach act (heads.map (Job.mk source target).along) progress).progress.files.Grows final) :
    (Attempt.forEach act (heads.map (Job.mk source target).along) progress).Matches (fun _ _ => True)
      (Attempt.forEach act (heads.map (Job.mk source target').along) progress) := by
  induction heads generalizing progress with
  | nil => exact .ok trivial progress
  | cons names heads ih =>
    rw [List.map_cons, Attempt.forEach] at hfinal
    refine (hact names progress ((Attempt.andThen_grows _ fun _ => forEach_grows hgrows _).trans hfinal)).andThen
      fun _ _ middle hfirst _ => ih middle ?_
    rwa [hfirst] at hfinal

/-- A directory with everything below it is done alike. The induction is on the room that is left. -/
theorem descend_matches (order : ListingOrder) (room : Nat) (names : List FileName) (progress : Progress)
    (hfinal : (descend order room ((Job.mk source target).along names) progress).progress.files.Grows final) :
    (descend order room ((Job.mk source target).along names) progress).Matches (fun _ _ => True)
      (descend order room ((Job.mk source target').along names) progress) := by
  induction room generalizing names progress with
  | zero => exact .fail _ _ progress
  | succ room ih =>
    unfold descend at hfinal ⊢
    have hrest := fun (inners : List Job) => forEach_grows (descend_grows order room) inners.reverse
    refine (handleDirectory_matches h haccepts order names progress ((Attempt.andThen_grows _ hrest).trans hfinal)).andThen
      fun inners inners' middle hfirst hinners => ?_
    rw [hfirst, Attempt.ok_andThen] at hfinal
    obtain ⟨heads, rfl, rfl⟩ := hinners
    rw [← List.map_reverse] at hfinal ⊢
    rw [← List.map_reverse]
    exact forEach_matches (descend_grows order room) ih heads.reverse middle hfinal

end Jobs

end Deployment

end ConsoleKit
