import ConsoleKit.Proofs.Deployment.Course
import Mathlib.Logic.Hydra
import Mathlib.Tactic.Abel

/-!
# The work list of a deployment

A deployment can be written as a loop over a stack of directories that remain to be done: each turn takes the directory
on top, handles its entries, and puts the directories among them on top (`WorkList.turn`). The loop knows nothing of the
length that the path of a source may still grow, and remembers no directory that it has seen; nevertheless no work list,
in whatever file system, lets it go on for ever (`wellFounded_turns`), because every turn takes away one path of a source
and brings longer ones only. A deployment is what its loop comes to (`deploy_loop`), so that the room that `descend` counts
down never decides anything.
-/

namespace ConsoleKit

open Deployment

namespace Deployment

open FileSystem Relation

/-- The directories that remain to be done, the next one first, and how far the deployment has come. -/
structure WorkList where
  pending : List Job
  progress : Progress

/-- What one turn of the loop comes to. -/
inductive Turn where
  | next (list : WorkList)
  | ended (attempt : Attempt Unit)

/-- Takes the next directory and handles its entries. The directories among them are put on top one after the other, so
that the last one comes next. -/
def WorkList.turn (order : ListingOrder) (list : WorkList) : Turn :=
  match list.pending with
  | [] => .ended (.ok () list.progress)
  | job :: pending =>
    let attempt := handleDirectory order job list.progress
    match attempt.result with
    | .ok inners => .next ⟨inners.reverse ++ pending, attempt.progress⟩
    | .error failure => .ended (.fail failure attempt.progress)

/-- The loop turns from one work list to the next. -/
def Turns (order : ListingOrder) (before after : WorkList) : Prop :=
  before.turn order = .next after

/-! ## One turn -/

variable {order : ListingOrder} {job : Job} {pending rest : List Job} {progress progress' : Progress}

theorem turns_of_ok {inners : List Job} (h : handleDirectory order job progress = .ok inners progress') :
    Turns order ⟨job :: pending, progress⟩ ⟨inners.reverse ++ pending, progress'⟩ := by
  unfold Turns WorkList.turn
  simp only [h, Attempt.ok]

theorem turn_of_fail {failure : Failure} (h : handleDirectory order job progress = .fail failure progress') :
    WorkList.turn order ⟨job :: pending, progress⟩ = .ended (.fail failure progress') := by
  unfold WorkList.turn
  simp only [h, Attempt.fail]

theorem turns_inv {before after : WorkList} (h : Turns order before after) :
    ∃ job pending inners, before.pending = job :: pending ∧ after.pending = inners.reverse ++ pending ∧
      handleDirectory order job before.progress = .ok inners after.progress := by
  obtain ⟨pending, progress⟩ := before
  unfold Turns WorkList.turn at h
  cases pending with
  | nil => cases h
  | cons job pending =>
    rcases (handleDirectory order job progress).ok_or_fail with ⟨inners, progress', hok⟩ | ⟨failure, progress', hfail⟩
    · simp only [hok, Attempt.ok, Turn.next.injEq] at h
      subst h
      exact ⟨job, pending, inners, rfl, rfl, hok⟩
    · simp only [hfail, Attempt.fail] at h
      cases h

/-! ## The loop comes to an end -/

/-- What remains of the entries of a directory are directories in it. -/
theorem mem_handleEntries {names : List FileName} {inners : List Job} {inner : Job}
    (h : handleEntries job names progress = .ok inners progress') (hinner : inner ∈ inners) :
    ∃ name, inner = job.inner name := by
  induction names generalizing progress inners with
  | nil =>
    cases h
    cases hinner
  | cons name names ih =>
    rw [handleEntries] at h
    obtain ⟨first, middle, hentry, hrest⟩ := Attempt.andThen_ok_inv h
    obtain ⟨inners', last, hentries, hok⟩ := Attempt.andThen_ok_inv hrest
    cases hok
    rcases List.mem_append.1 hinner with hfirst | hinner
    · rw [(handleEntry_ok hentry).2] at hfirst
      split at hfirst
      · exact ⟨name, List.mem_singleton.1 hfirst⟩
      · cases hfirst
    · exact ih hentries hinner

/-- A directory that is done has room, and what it leaves to be done has less. -/
theorem handleDirectory_ok {inners : List Job} (h : handleDirectory order job progress = .ok inners progress') :
    job.source.spelling.length < pathLimit ∧ ∀ inner ∈ inners, ∃ name, inner = job.inner name := by
  unfold handleDirectory at h
  cases hlist : progress.files.list job.source with
  | error error =>
    rw [hlist] at h
    cases h
  | ok names =>
    rw [hlist] at h
    refine ⟨length_of_leads (leads_of_isDirectory (isDirectory_of_list hlist)), fun inner hinner => ?_⟩
    exact mem_handleEntries h hinner

/-- How much the path of the source may still grow. -/
def Job.room (job : Job) : Nat :=
  pathLimit - job.source.spelling.length

theorem room_inner_lt (hroom : job.source.spelling.length < pathLimit) (name : FileName) :
    (job.inner name).room < job.room := by
  have hlonger : job.source.spelling.length < (job.inner name).source.spelling.length := Path.length_lt_join _ name
  unfold Job.room
  omega

/-- The room of each directory that remains to be done. -/
def WorkList.rooms (list : WorkList) : Multiset Nat :=
  list.pending.map Job.room

/-- Each turn replaces one room by any number of smaller ones. -/
theorem turns_cutExpand {before after : WorkList} (h : Turns order before after) :
    CutExpand (· < ·) after.rooms before.rooms := by
  obtain ⟨job, pending, inners, hbefore, hafter, hdirectory⟩ := turns_inv h
  obtain ⟨hroom, hinners⟩ := handleDirectory_ok hdirectory
  refine ⟨inners.reverse.map Job.room, job.room, ?_, ?_⟩
  · intro room hmem
    obtain ⟨inner, hinner, rfl⟩ := List.mem_map.1 (Multiset.mem_coe.1 hmem)
    obtain ⟨name, rfl⟩ := hinners inner (List.mem_reverse.1 hinner)
    exact room_inner_lt hroom name
  · unfold WorkList.rooms
    rw [hbefore, hafter, List.map_append, List.map_cons, ← Multiset.coe_add, ← Multiset.cons_coe,
      ← Multiset.singleton_add]
    abel

/-- No work list lets the loop go on for ever. -/
theorem wellFounded_turns (order : ListingOrder) : WellFounded fun after before => Turns order before after := by
  have hrooms : WellFounded (InvImage (CutExpand (· < ·)) WorkList.rooms) := InvImage.wf _ wellFounded_lt.cutExpand
  exact Subrelation.wf turns_cutExpand hrooms

/-! ## A deployment is what its loop comes to -/

/-- The loop comes to a given end with what was on top of the work list: it is done with it and goes on with the rest, or
it fails before. -/
inductive Performs (order : ListingOrder) (start : WorkList) (rest : List Job) : Attempt Unit → Prop where
  | done {progress : Progress} (hturns : ReflTransGen (Turns order) start ⟨rest, progress⟩) :
      Performs order start rest (.ok () progress)
  | failed {failure : Failure} {progress : Progress} {last : WorkList} (hturns : ReflTransGen (Turns order) start last)
      (hlast : last.turn order = .ended (.fail failure progress)) : Performs order start rest (.fail failure progress)

theorem Performs.after {start middle : WorkList} {attempt : Attempt Unit} (h : Performs order middle rest attempt)
    (hturns : ReflTransGen (Turns order) start middle) : Performs order start rest attempt := by
  cases h with
  | done hturns' => exact .done (hturns.trans hturns')
  | failed hturns' hlast => exact .failed (hturns.trans hturns') hlast

theorem Performs.andThen {start : WorkList} {middle : List Job} {attempt : Attempt Unit}
    {next : Unit → Progress → Attempt Unit} (h : Performs order start middle attempt)
    (hnext : ∀ progress, Performs order ⟨middle, progress⟩ rest (next () progress)) :
    Performs order start rest (attempt.andThen next) := by
  cases h with
  | done hturns => exact (hnext _).after hturns
  | failed hturns hlast => exact .failed hturns hlast

theorem forEach_performs {act : Job → Progress → Attempt Unit} (rest : List Job)
    (hact : ∀ job ∈ pending, ∀ rest progress, Performs order ⟨job :: rest, progress⟩ rest (act job progress))
    (progress : Progress) : Performs order ⟨pending ++ rest, progress⟩ rest (Attempt.forEach act pending progress) := by
  induction pending generalizing progress with
  | nil => exact .done .refl
  | cons job pending ih =>
    refine (hact job (.head _) (pending ++ rest) progress).andThen fun middle => ?_
    exact ih (fun job' hjob' => hact job' (.tail _ hjob')) middle

/-- The recursion on the room does what the loop does. -/
theorem descend_performs (room : Nat) (hnul : (0 : UInt8) ∉ job.source.spelling)
    (hroom : pathLimit ≤ room + job.source.spelling.length) (rest : List Job) (progress : Progress) :
    Performs order ⟨job :: rest, progress⟩ rest (descend order room job progress) := by
  induction room generalizing job rest progress with
  | zero =>
    -- The loop does not know that there is no room, but the system does not list a path of this length.
    have hlong : pathLimit ≤ job.source.spelling.length := by omega
    refine .failed .refl (turn_of_fail ?_)
    unfold handleDirectory
    rw [list_of_tooLong hnul hlong]
  | succ room ih =>
    unfold descend
    rcases (handleDirectory order job progress).ok_or_fail with ⟨inners, middle, hok⟩ | ⟨failure, middle, hfail⟩
    · rw [hok, Attempt.ok_andThen]
      refine (forEach_performs rest ?_ middle).after (.single (turns_of_ok hok))
      intro inner hinner rest progress
      obtain ⟨name, rfl⟩ := (handleDirectory_ok hok).2 inner (List.mem_reverse.1 hinner)
      have hlonger : job.source.spelling.length < (job.inner name).source.spelling.length := Path.length_lt_join _ name
      exact ih (Path.nul_notMem_join hnul name) (by omega) rest progress
    · rw [hfail, Attempt.fail_andThen]
      exact .failed .refl (turn_of_fail hfail)

variable {files : FileSystem} {source target : Path}

/-- Once the target is provided, a deployment comes to what its loop comes to. -/
theorem deploy_loop (order : ListingOrder) (hsource : files.isDirectory source = true)
    (hprovide : provideDirectory target ⟨files, ⟨0, 0⟩⟩ = .ok () progress) :
    ∃ last attempt, ReflTransGen (Turns order) ⟨[⟨source, target⟩], progress⟩ last ∧
      last.turn order = .ended attempt ∧
      files.deploy order source target = ⟨attempt.result.map fun _ => attempt.progress.report, attempt.progress.files⟩ := by
  obtain ⟨mode, hstat⟩ := isDirectory_iff.1 hsource
  obtain ⟨spot, hfind⟩ := leads_of_stat hstat
  have hnul := (checkPath_eq_ok_iff.1 (walk_eq_ok_iff.1 (find_eq_ok_iff.1 hfind)).1).1
  have hroom : pathLimit ≤ pathLimit - source.spelling.length + source.spelling.length := by omega
  have hperforms : Performs order ⟨[⟨source, target⟩], progress⟩ []
      (descend order (pathLimit - source.spelling.length) ⟨source, target⟩ progress) :=
    descend_performs _ hnul hroom [] progress
  unfold FileSystem.deploy start
  rw [hstat]
  simp only [hprovide, Attempt.ok_andThen]
  generalize descend order (pathLimit - source.spelling.length) ⟨source, target⟩ progress = attempt at hperforms ⊢
  cases hperforms with
  | done hturns => exact ⟨_, _, hturns, rfl, rfl⟩
  | failed hturns hlast => exact ⟨_, _, hturns, hlast, rfl⟩

end Deployment

end ConsoleKit
