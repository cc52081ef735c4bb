import ConsoleKit.Deployment.Separation
import ConsoleKit.Proofs.Files.Copies
import ConsoleKit.Proofs.Files.Directories
import Mathlib.Logic.Relation

/-!
# The run of a deployment

Whatever its work list holds, a deployment changes the file system by steps of two kinds: it makes a directory of the
target where the source has one, or it copies a file to the same place below the target (`Step`). The first main result
is that the file system afterwards is reached by such steps, also if the deployment fails (`deploy_runs`); the second,
that a deployment that succeeds has brought over everything that the source had (`deploy_covers`).
-/

namespace ConsoleKit

namespace Deployment

/-! ## Parts of a deployment -/

/-- What holds after a part of a deployment, and what holds if it succeeds. -/
structure Attempt.Meets {α : Type} (attempt : Attempt α) (always : Progress → Prop) (success : α → Progress → Prop) :
    Prop where
  always : always attempt.progress
  success : ∀ value, attempt.result = .ok value → success value attempt.progress

section Meets

variable {α β : Type} {always always' : Progress → Prop}

theorem Attempt.meets_ok {success : α → Progress → Prop} {value : α} {progress : Progress} (h : always progress)
    (hsuccess : success value progress) : (Attempt.ok value progress).Meets always success :=
  ⟨h, fun value' hvalue' => by cases hvalue'; exact hsuccess⟩

theorem Attempt.meets_fail {success : α → Progress → Prop} {failure : Failure} {progress : Progress}
    (h : always progress) : (Attempt.fail failure progress).Meets always success :=
  ⟨h, fun value' hvalue' => by cases hvalue'⟩

theorem Attempt.Meets.mono {success success' : α → Progress → Prop} {attempt : Attempt α}
    (h : attempt.Meets always success) (halways : ∀ progress, always progress → always' progress)
    (hsuccess : ∀ value progress, always progress → success value progress → success' value progress) :
    attempt.Meets always' success' :=
  ⟨halways _ h.always, fun value hvalue => hsuccess value _ h.always (h.success value hvalue)⟩

theorem Attempt.Meets.andThen {success : α → Progress → Prop} {success' : β → Progress → Prop} {attempt : Attempt α}
    {next : α → Progress → Attempt β} (h : attempt.Meets always success)
    (hfail : ∀ progress, always progress → always' progress)
    (hnext : ∀ value progress, always progress → success value progress → (next value progress).Meets always' success') :
    (attempt.andThen next).Meets always' success' := by
  obtain ⟨result, progress⟩ := attempt
  cases result with
  | error failure => exact meets_fail (hfail _ h.always)
  | ok value => exact hnext value progress h.always (h.success value rfl)

end Meets

/-! ## Steps -/

/-- A change that a deployment makes below its target: a directory where the source has one, or a copy of a file. -/
inductive Step (source target : Path) (files : FileSystem) : FileSystem → Prop where
  | directory {names : List FileName} {mode : Mode} {files' : FileSystem} (hne : names ≠ [])
      (hsource : files.stat (source.joinAll names) = .ok (.directory mode))
      (hmake : files.makeDirectory (target.joinAll names) = .ok files') : Step source target files files'
  | file {names : List FileName} {files' : FileSystem} (hne : names ≠ [])
      (hcopy : files.copyFile (source.joinAll names) (target.joinAll names) = .ok files') : Step source target files files'

/-- Any number of steps. -/
abbrev Runs (source target : Path) : FileSystem → FileSystem → Prop :=
  Relation.ReflTransGen (Step source target)

variable {source target : Path} {files files' files'' : FileSystem} {names : List FileName}

theorem Step.grows (h : Step source target files files') : files.Grows files' := by
  cases h with
  | directory _ _ hmake => exact FileSystem.makeDirectory_grows hmake
  | file _ hcopy => exact FileSystem.copyFile_grows hcopy

theorem Runs.grows (h : Runs source target files files') : files.Grows files' := by
  induction h with
  | refl => exact .refl files
  | tail _ hstep ih => exact ih.trans hstep.grows

/-- What a job is about was brought from the source to the target in the course of a run: there is something at the
target if the source is a directory, and otherwise it was copied at some moment. -/
structure Covered (source target : Path) (job : Job) (files files' : FileSystem) : Prop where
  directory : ∀ mode, files.stat job.source = .ok (.directory mode) → files'.Leads job.target
  file : files.Leads job.source → (∀ mode, files.stat job.source ≠ .ok (.directory mode)) →
    ∃ before after, Runs source target files before ∧ before.copyFile job.source job.target = .ok after ∧
      Runs source target after files'

theorem Covered.before {job : Job} (h : Covered source target job files' files'') (hrun : Runs source target files files') :
    Covered source target job files files'' := by
  refine ⟨?_, ?_⟩
  · intro mode hstat
    exact h.directory mode (FileSystem.stat_directory_grows hstat hrun.grows)
  · intro hleads hdirectory
    obtain ⟨before, after, hbefore, hcopy, hafter⟩ := h.file (hleads.grows hrun.grows) fun mode hstat =>
      hdirectory mode (FileSystem.stat_directory_of_grows hstat hrun.grows hleads)
    exact ⟨before, after, hrun.trans hbefore, hcopy, hafter⟩

theorem Covered.after {job : Job} (h : Covered source target job files files') (hrun : Runs source target files' files'') :
    Covered source target job files files'' := by
  refine ⟨fun mode hstat => (h.directory mode hstat).grows hrun.grows, ?_⟩
  intro hleads hdirectory
  obtain ⟨before, after, hbefore, hcopy, hafter⟩ := h.file hleads hdirectory
  exact ⟨before, after, hbefore, hcopy, hafter.trans hrun⟩

/-! ## Parts of a deployment are runs -/

/-- A directory can take entries: something is at its path, or the path has no spelling. -/
def Provided (files : FileSystem) (path : Path) : Prop :=
  path.isEmpty ∨ files.Leads path

theorem Provided.grows {path : Path} (h : Provided files path) (hgrows : files.Grows files') : Provided files' path :=
  h.imp_right fun hleads => hleads.grows hgrows

theorem missingCount_eq_zero {path : Path} {above : List Path.Pieces} :
    missingCount files path above = 0 ↔ Provided files path := by
  unfold missingCount isMissing Provided FileSystem.contains FileSystem.Leads
  cases hempty : path.isEmpty <;> cases hfind : files.find path <;> simp

/-- To provide a directory is to make it with its missing parents. -/
theorem provideDirectory_meets (path : Path) (progress : Progress) : (provideDirectory path progress).Meets
    (fun progress' => progress'.files = progress.files.withDirectory path)
    (fun _ progress' => Provided progress'.files path) := by
  unfold provideDirectory
  by_cases hzero : missingCount progress.files path path.pieces.ancestors = 0
  · have hprovided := missingCount_eq_zero.1 hzero
    simp only [hzero, if_true]
    refine Attempt.meets_ok ?_ hprovided
    unfold FileSystem.withDirectory
    rcases hprovided with hempty | ⟨spot, hfind⟩
    · rw [FileSystem.makeDirectories_of_isEmpty hempty]
    · rw [FileSystem.makeDirectories_of_find hfind]
  · simp only [hzero, if_false]
    rcases hmake : progress.files.makeDirectories path path.pieces.ancestors with ⟨error | _, made⟩
    · refine Attempt.meets_fail ?_
      unfold FileSystem.withDirectory
      rw [hmake]
    · refine Attempt.meets_ok ?_ ?_
      · unfold FileSystem.withDirectory
        rw [hmake]
      · have hfind := FileSystem.find_of_makeDirectories (congrArg Prod.fst hmake)
        rw [hmake] at hfind
        exact hfind

/-- To make the missing part of a path is to make directories, each at the path or at one of its ancestors. -/
theorem withDirectory_madeAt (files : FileSystem) (path : Path) :
    FileSystem.MadeAt path.ancestors files (files.withDirectory path) :=
  FileSystem.makeDirectories_madeAt files path path.pieces.ancestors

/-- In a directory that can take entries, to provide one is at most to make it. -/
theorem provideDirectory_join_meets {path : Path} {progress : Progress} (h : Provided progress.files path) (name : FileName) :
    (provideDirectory (path.join name) progress).Meets
      (fun progress' => progress'.files = progress.files ∨
        progress.files.makeDirectory (path.join name) = .ok progress'.files)
      (fun _ progress' => progress'.files.Leads (path.join name)) := by
  refine (provideDirectory_meets (path.join name) progress).mono (fun progress' hfiles => ?_) fun _ progress' _ hprovided => ?_
  · rw [hfiles, FileSystem.withDirectory]
    rcases FileSystem.makeDirectories_join h name with ⟨made, hmake, hmade⟩ | hsame
    · rw [hmade]
      exact .inr hmake
    · exact .inl hsame
  · exact hprovided.resolve_left (by simp)

/-- The job for what names lead to. -/
def Job.along (job : Job) (names : List FileName) : Job :=
  ⟨job.source.joinAll names, job.target.joinAll names⟩

theorem Job.inner_along (job : Job) (names : List FileName) (name : FileName) :
    (job.along names).inner name = job.along (names ++ [name]) := by
  unfold along
  rw [Path.joinAll_concat, Path.joinAll_concat, inner]

/-- What comes of listed entries: each is covered, and the directories among them are the jobs that remain. -/
structure Handled (source target : Path) (job : Job) (listed : List FileName) (inners : List Job)
    (files files' : FileSystem) : Prop where
  covered : ∀ name ∈ listed, Covered source target (job.inner name) files files'
  inner : ∀ inner ∈ inners, ∃ name ∈ listed, inner = job.inner name ∧ Provided files' inner.target
  directory : ∀ name ∈ listed, ∀ mode, files.stat (job.inner name).source = .ok (.directory mode) →
    job.inner name ∈ inners

theorem Handled.nil {job : Job} : Handled source target job [] [] files files :=
  ⟨by simp, by simp, by simp⟩

theorem Handled.directoryEntry {job : Job} {name : FileName} {mode : Mode}
    (hstat : files.stat (job.inner name).source = .ok (.directory mode)) (hleads : files'.Leads (job.inner name).target) :
    Handled source target job [name] [job.inner name] files files' := by
  refine ⟨?_, ?_, ?_⟩
  · intro name' hname
    rw [List.mem_singleton.1 hname]
    exact ⟨fun _ _ => hleads, fun _ hnot => absurd hstat (hnot mode)⟩
  · intro inner hinner
    exact ⟨name, List.mem_singleton_self name, List.mem_singleton.1 hinner, .inr (List.mem_singleton.1 hinner ▸ hleads)⟩
  · intro name' hname _ _
    rw [List.mem_singleton.1 hname]
    exact List.mem_singleton_self _

theorem Handled.otherEntry {job : Job} {name : FileName} {entry : Entry}
    (hstat : files.stat (job.inner name).source = .ok entry) (hentry : ∀ mode, entry ≠ .directory mode)
    (hcopy : files.copyFile (job.inner name).source (job.inner name).target = .ok files') :
    Handled source target job [name] [] files files' := by
  have hnot : ∀ mode, files.stat (job.inner name).source ≠ .ok (.directory mode) := by
    intro mode hmode
    rw [hstat, Except.ok.injEq] at hmode
    exact hentry mode hmode
  refine ⟨?_, ?_, ?_⟩
  · intro name' hname
    rw [List.mem_singleton.1 hname]
    exact ⟨fun mode hmode => absurd hmode (hnot mode), fun _ _ => ⟨_, _, .refl, hcopy, .refl⟩⟩
  · intro inner hinner
    cases hinner
  · intro name' hname mode hmode
    rw [List.mem_singleton.1 hname] at hmode
    exact absurd hmode (hnot mode)

theorem Handled.append {job : Job} {listed listed' : List FileName} {inners inners' : List Job}
    (h : Handled source target job listed inners files files') (hrun : Runs source target files files')
    (h' : Handled source target job listed' inners' files' files'') (hrun' : Runs source target files' files'') :
    Handled source target job (listed ++ listed') (inners ++ inners') files files'' := by
  refine ⟨?_, ?_, ?_⟩
  · intro name hname
    rcases List.mem_append.1 hname with hname | hname
    · exact (h.covered name hname).after hrun'
    · exact (h'.covered name hname).before hrun
  · intro inner hinner
    rcases List.mem_append.1 hinner with hinner | hinner
    · obtain ⟨name, hname, heq, hprovided⟩ := h.inner inner hinner
      exact ⟨name, List.mem_append_left _ hname, heq, hprovided.grows hrun'.grows⟩
    · obtain ⟨name, hname, heq, hprovided⟩ := h'.inner inner hinner
      exact ⟨name, List.mem_append_right _ hname, heq, hprovided⟩
  · intro name hname mode hstat
    rcases List.mem_append.1 hname with hname | hname
    · exact List.mem_append_left _ (h.directory name hname mode hstat)
    · exact List.mem_append_right _
        (h'.directory name hname mode (FileSystem.stat_directory_grows hstat hrun.grows))

section Runs

variable {order : ListingOrder}

theorem handleEntry_directory {job : Job} {name : FileName} {progress : Progress} {mode : Mode}
    (h : progress.files.stat (job.inner name).source = .ok (.directory mode)) : handleEntry job name progress =
      (provideDirectory (job.inner name).target progress).andThen fun _ => .ok (some (job.inner name)) := by
  rw [handleEntry, h]

theorem handleEntry_other {job : Job} {name : FileName} {progress : Progress} {entry : Entry}
    (h : progress.files.stat (job.inner name).source = .ok entry) (hentry : ∀ mode, entry ≠ .directory mode) :
    handleEntry job name progress =
      (copyFile (job.inner name).source (job.inner name).target progress).andThen fun _ => .ok none := by
  rw [handleEntry, h]
  cases entry with
  | directory mode => exact absurd rfl (hentry mode)
  | _ => rfl

theorem copyFile_meets (read written : Path) (progress : Progress) : (copyFile read written progress).Meets
    (fun progress' => progress'.files = progress.files ∨ progress.files.copyFile read written = .ok progress'.files)
    (fun _ progress' => progress.files.copyFile read written = .ok progress'.files) := by
  unfold copyFile
  cases hcopy : progress.files.copyFile read written with
  | error error => exact Attempt.meets_fail (.inl rfl)
  | ok files => exact Attempt.meets_ok (.inr rfl) rfl

/-- Handling an entry is a step, or none. -/
theorem handleEntry_meets {job : Job} (hjob : job = (Job.mk source target).along names) {progress : Progress}
    (h : Provided progress.files job.target) (name : FileName) : (handleEntry job name progress).Meets
      (fun progress' => Runs source target progress.files progress'.files)
      (fun inner progress' => Handled source target job [name] inner.toList progress.files progress'.files) := by
  have hne : names ++ [name] ≠ [] := by simp
  have hinner : job.inner name = (Job.mk source target).along (names ++ [name]) := by rw [hjob, Job.inner_along]
  have hsource : (job.inner name).source = source.joinAll (names ++ [name]) := congrArg Job.source hinner
  have htarget : (job.inner name).target = target.joinAll (names ++ [name]) := congrArg Job.target hinner
  cases hstat : progress.files.stat (job.inner name).source with
  | error error =>
    rw [handleEntry, hstat]
    exact Attempt.meets_fail .refl
  | ok entry =>
    by_cases hdirectory : ∃ mode, entry = .directory mode
    · obtain ⟨mode, rfl⟩ := hdirectory
      have hrun : ∀ progress' : Progress, progress'.files = progress.files ∨
          progress.files.makeDirectory (job.inner name).target = .ok progress'.files →
            Runs source target progress.files progress'.files := by
        rintro progress' (hsame | hmake)
        · rw [hsame]
        · exact .single (.directory hne (hsource ▸ hstat) (htarget ▸ hmake))
      rw [handleEntry_directory hstat]
      refine (provideDirectory_join_meets h name).andThen hrun fun _ progress' hfiles hleads => ?_
      exact Attempt.meets_ok (hrun progress' hfiles) (.directoryEntry hstat hleads)
    · have hentry : ∀ mode, entry ≠ .directory mode := fun mode heq => hdirectory ⟨mode, heq⟩
      have hstep : ∀ progress' : Progress,
          progress.files.copyFile (job.inner name).source (job.inner name).target = .ok progress'.files →
            Runs source target progress.files progress'.files := by
        intro progress' hcopy
        exact .single (.file hne (hsource ▸ htarget ▸ hcopy))
      rw [handleEntry_other hstat hentry]
      refine (copyFile_meets _ _ progress).andThen (fun progress' hfiles => ?_) fun _ progress' _ hcopy => ?_
      · rcases hfiles with hsame | hcopy
        · rw [hsame]
        · exact hstep progress' hcopy
      · exact Attempt.meets_ok (hstep progress' hcopy) (.otherEntry hstat hentry hcopy)

/-- Handling entries is a run. The induction is on the names: what was handled stays, because the file system grows. -/
theorem handleEntries_meets {job : Job} (hjob : job = (Job.mk source target).along names) {progress : Progress}
    (h : Provided progress.files job.target) (listed : List FileName) : (handleEntries job listed progress).Meets
      (fun progress' => Runs source target progress.files progress'.files)
      (fun inners progress' => Handled source target job listed inners progress.files progress'.files) := by
  induction listed generalizing progress with
  | nil => exact Attempt.meets_ok .refl .nil
  | cons name listed ih =>
    unfold handleEntries
    refine (handleEntry_meets hjob h name).andThen (fun _ hrun => hrun) fun inner middle hrun hinner => ?_
    refine (ih (h.grows hrun.grows)).andThen (fun _ hrun' => hrun.trans hrun') fun inners progress' hrun' hinners => ?_
    exact Attempt.meets_ok (hrun.trans hrun') (hinner.append hrun hinners hrun')

/-- What is listed is handled, in whatever order; and everything that the directory of the source has is listed. -/
theorem handleDirectory_meets {job : Job} (hjob : job = (Job.mk source target).along names) {progress : Progress}
    (h : Provided progress.files job.target) : (handleDirectory order job progress).Meets
      (fun progress' => Runs source target progress.files progress'.files)
      (fun inners progress' => ∃ listed,
        (∀ name names', progress.files.Leads (job.source.joinAll (name :: names')) → name ∈ listed) ∧
        Handled source target job listed inners progress.files progress'.files) := by
  unfold handleDirectory
  cases hlist : progress.files.list job.source with
  | error error => exact Attempt.meets_fail .refl
  | ok listed =>
    refine (handleEntries_meets hjob h _).mono (fun _ hrun => hrun) fun inners progress' _ hhandled => ?_
    refine ⟨_, ?_, hhandled⟩
    intro name names' hleads
    exact (order.perm job.source listed).mem_iff.2 (FileSystem.mem_list hleads hlist)

/-- Everything that the source has below a job was covered. -/
def CoveredBelow (source target : Path) (job : Job) (files files' : FileSystem) : Prop :=
  ∀ names, names ≠ [] → files.Leads (job.source.joinAll names) → Covered source target (job.along names) files files'

theorem CoveredBelow.before {job : Job} (h : CoveredBelow source target job files' files'')
    (hrun : Runs source target files files') : CoveredBelow source target job files files'' :=
  fun names hne hleads => (h names hne (hleads.grows hrun.grows)).before hrun

theorem CoveredBelow.after {job : Job} (h : CoveredBelow source target job files files')
    (hrun : Runs source target files' files'') : CoveredBelow source target job files files'' :=
  fun names hne hleads => (h names hne hleads).after hrun

/-- Jobs that are runs, one after the other, are a run. -/
theorem forEach_meets {act : Job → Progress → Attempt Unit} {jobs : List Job} {progress : Progress}
    (h : ∀ job ∈ jobs, Provided progress.files job.target ∧ ∀ progress', Provided progress'.files job.target →
      (act job progress').Meets (fun progress'' => Runs source target progress'.files progress''.files)
        (fun _ progress'' => CoveredBelow source target job progress'.files progress''.files)) :
    (Attempt.forEach act jobs progress).Meets (fun progress' => Runs source target progress.files progress'.files)
      (fun _ progress' => ∀ job ∈ jobs, CoveredBelow source target job progress.files progress'.files) := by
  induction jobs generalizing progress with
  | nil => exact Attempt.meets_ok .refl fun _ hjob => by cases hjob
  | cons job jobs ih =>
    unfold Attempt.forEach
    obtain ⟨hprovided, hact⟩ := h job (.head _)
    refine (hact progress hprovided).andThen (fun _ hrun => hrun) fun _ middle hrun hcovered => ?_
    refine (ih fun job' hjob' => ?_).mono (fun _ hrun' => hrun.trans hrun') fun _ progress' hrun' hrest job' hjob' => ?_
    · obtain ⟨hprovided', hact'⟩ := h job' (.tail _ hjob')
      exact ⟨hprovided'.grows hrun.grows, hact'⟩
    · rcases List.mem_cons.1 hjob' with rfl | hjob'
      · exact hcovered.after hrun'
      · exact (hrest job' hjob').before hrun

/-- A job with everything below it is a run, and if it succeeds, covers what the source has below it. The induction is on
the room that is left: the jobs for the directories inside have less. -/
theorem descend_meets (room : Nat) {job : Job} (hjob : job = (Job.mk source target).along names) {progress : Progress}
    (h : Provided progress.files job.target) : (descend order room job progress).Meets
      (fun progress' => Runs source target progress.files progress'.files)
      (fun _ progress' => CoveredBelow source target job progress.files progress'.files) := by
  induction room generalizing job names progress with
  | zero => exact Attempt.meets_fail .refl
  | succ room ih =>
    unfold descend
    refine (handleDirectory_meets hjob h).andThen (fun _ hrun => hrun) fun inners middle hrun hhandled => ?_
    obtain ⟨listed, hlisted, hhandled⟩ := hhandled
    have hinners : (Attempt.forEach (descend order room) inners.reverse middle).Meets
        (fun progress' => Runs source target middle.files progress'.files)
        (fun _ progress' => ∀ inner ∈ inners.reverse, CoveredBelow source target inner middle.files progress'.files) := by
      refine forEach_meets fun inner hinner => ?_
      obtain ⟨name, -, rfl, hprovided⟩ := hhandled.inner inner (List.mem_reverse.1 hinner)
      have hinner' : job.inner name = (Job.mk source target).along (names ++ [name]) := by rw [hjob, Job.inner_along]
      exact ⟨hprovided, fun progress' hprovided' => ih hinner' hprovided'⟩
    refine hinners.mono (fun _ hrun' => hrun.trans hrun') fun _ progress' hrun' hcovered names' hne hleads => ?_
    obtain ⟨name, names', rfl⟩ := List.exists_cons_of_ne_nil hne
    have hname := hlisted name names' hleads
    cases names' with
    | nil => exact (hhandled.covered name hname).after hrun'
    | cons name' names' =>
      have hleads' : progress.files.Leads ((job.inner name).source.joinAll (name' :: names')) := hleads
      obtain ⟨mode, hmode⟩ := FileSystem.stat_of_joinAll (by simp [Job.inner]) (by simp) hleads'
      have hinner := hhandled.directory name hname mode hmode
      exact ((hcovered _ (List.mem_reverse.2 hinner)).before hrun) _ (by simp) hleads'

/-! ## The whole deployment -/

/-- What is done once the target is provided is a run. -/
theorem start_meets (progress : Progress) : (start order source target progress).Meets
    (fun progress' => progress'.files = progress.files ∨
      Runs source target (progress.files.withDirectory target) progress'.files)
    (fun _ progress' => (∃ mode, progress.files.stat source = .ok (.directory mode)) ∧
      Provided (progress.files.withDirectory target) target ∧
      Runs source target (progress.files.withDirectory target) progress'.files ∧
      CoveredBelow source target ⟨source, target⟩ (progress.files.withDirectory target) progress'.files) := by
  unfold start
  cases hstat : progress.files.stat source with
  | error error => exact Attempt.meets_fail (.inl rfl)
  | ok entry =>
    cases entry with
    | directory mode =>
      refine (provideDirectory_meets target progress).andThen (fun _ hfiles => .inr (hfiles ▸ .refl))
        fun _ middle hfiles hprovided => ?_
      have hroot : Job.mk source target = (Job.mk source target).along [] := rfl
      have hdescend : (descend order (FileSystem.pathLimit - source.spelling.length) ⟨source, target⟩ middle).Meets
          (fun progress' => Runs source target middle.files progress'.files)
          (fun _ progress' => CoveredBelow source target ⟨source, target⟩ middle.files progress'.files) :=
        descend_meets _ hroot hprovided
      rw [hfiles] at hdescend hprovided
      exact hdescend.mono (fun _ hrun => .inr hrun) fun _ progress' hrun hcovered =>
        ⟨⟨mode, rfl⟩, hprovided, hrun, hcovered⟩
    | _ => exact Attempt.meets_fail (.inl rfl)

end Runs

end Deployment

open Deployment

variable {files : FileSystem} {order : ListingOrder} {source target : Path}

/-- Whatever a deployment comes to, it has changed nothing, or has made the missing part of the target and then gone some
steps. -/
theorem FileSystem.deploy_runs (files : FileSystem) (order : ListingOrder) (source target : Path) :
    (files.deploy order source target).files = files ∨
      Runs source target (files.withDirectory target) (files.deploy order source target).files :=
  (start_meets ⟨files, ⟨0, 0⟩⟩).always

theorem FileSystem.deploy_grows (files : FileSystem) (order : ListingOrder) (source target : Path) :
    files.Grows (files.deploy order source target).files := by
  rcases files.deploy_runs order source target with hsame | hrun
  · rw [hsame]
    exact .refl files
  · exact (withDirectory_madeAt files target).grows.trans hrun.grows

/-- A deployment that succeeds had a directory as its source, and covers everything in it. -/
theorem FileSystem.deploy_covers {report : Report} (h : (files.deploy order source target).result = .ok report) :
    (∃ mode, files.stat source = .ok (.directory mode)) ∧ Provided (files.withDirectory target) target ∧
      Runs source target (files.withDirectory target) (files.deploy order source target).files ∧
      CoveredBelow source target ⟨source, target⟩ (files.withDirectory target) (files.deploy order source target).files := by
  have hstart := @start_meets source target order ⟨files, ⟨0, 0⟩⟩
  refine hstart.success () ?_
  unfold FileSystem.deploy at h
  cases hresult : (start order source target ⟨files, ⟨0, 0⟩⟩).result with
  | error failure =>
    simp only [hresult] at h
    cases h
  | ok _ => rfl

end ConsoleKit
