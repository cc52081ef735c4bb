import ConsoleKit.Proofs.Deployment.Handling
import ConsoleKit.Proofs.Deployment.PlainTrees
import ConsoleKit.Proofs.Files.Forward
import ConsoleKit.Proofs.Files.NewDirectories

/-!
# Targets that are provided

The missing part of a target is counted before it is made, by looking at its ancestors one by one. The missing paths are made
the furthest first (`madeInTurn_of_makeDirectories`), and each of them brings one new directory at most, and none if it goes
up (`MadeInTurn.encard_le`). If none goes up, each brings one, and the target is then a new empty directory
(`MadeInTurn.fresh`). So the count is the number of directories made if no missing path goes up, and only then
(`provideDirectory_counts`), in particular for a target without `..` (`provideDirectory_forward`). Such a target can be told
from the beginning to be separated from the source, and plain below (`separated_of_atFirst`, `plainBelow_of_atFirst`).
-/

namespace ConsoleKit

open FileSystem

namespace Deployment

open ConsoleKit.Path (Climbs Extends Segment)

variable {files made middle : FileSystem} {source target path : Path} {paths : List Path}
  {above : List Path.Pieces}

/-! ## What is made -/

/-- How a missing path is made: at once; or its parent is missing too and is made first, and then the path is made, unless it
leads somewhere already. Where the parent is not missing, the second attempt would be the same as the first. -/
theorem makeDirectories_of_missing (hnot : ¬ Provided files path) (hmake : files.makeDirectories path above = (.ok (), made)) :
    files.makeDirectory path = .ok made ∨ ∃ parent above' middle, above = parent :: above' ∧ ¬ Provided files parent.path ∧
      files.makeDirectories parent.path above' = (.ok (), middle) ∧
      (middle.makeDirectory path = .ok made ∨ made = middle ∧ middle.Leads path) := by
  have hempty : ¬ path.isEmpty := fun hempty => hnot (.inl hempty)
  have hsettled : ∀ error, files.settle path error ≠ .ok () := fun error h => hnot (.inr (find_of_settle h))
  cases hfirst : files.makeDirectory path with
  | ok made' =>
    rw [makeDirectories_of_ok hempty hfirst] at hmake
    obtain ⟨-, rfl⟩ := Prod.mk.inj hmake
    exact .inl rfl
  | error error =>
    right
    by_cases hne : error = .notFound
    · subst hne
      cases above with
      | nil =>
        rw [makeDirectories, if_neg hempty, hfirst] at hmake
        cases hmake
      | cons parent above' =>
        rcases hparents : files.makeDirectories parent.path above' with ⟨error | _, middle⟩
        · rw [makeDirectories_of_parent_error hempty hfirst hparents] at hmake
          cases hmake
        · rw [makeDirectories_of_parent_ok hempty hfirst hparents] at hmake
          refine ⟨parent, above', middle, rfl, fun hprovided => ?_, hparents, ?_⟩
          · have hsame : middle = files := by
              rcases hprovided with hparentEmpty | ⟨spot, hfind⟩
              · rw [makeDirectories_of_isEmpty hparentEmpty] at hparents
                exact (Prod.mk.inj hparents).2.symm
              · rw [← makeDirectories_of_find hfind above', hparents]
            rw [hsame, hfirst] at hmake
            exact hsettled .notFound (Prod.mk.inj hmake).1
          · cases hsecond : middle.makeDirectory path with
            | ok made' =>
              rw [hsecond] at hmake
              obtain ⟨-, rfl⟩ := Prod.mk.inj hmake
              exact .inl rfl
            | error error =>
              rw [hsecond] at hmake
              obtain ⟨hsettle, rfl⟩ := Prod.mk.inj hmake
              exact .inr ⟨rfl, find_of_settle hsettle⟩
    · rw [makeDirectories_of_error hempty hfirst hne] at hmake
      exact absurd (Prod.mk.inj hmake).1 (hsettled error)

/-- Paths of which each extends the next one are made, the last one first. Once its parent is made, a path may be found to
lead somewhere already. -/
inductive MadeInTurn (files : FileSystem) : List Path → FileSystem → Prop where
  | last {path : Path} {made : FileSystem} (hmake : files.makeDirectory path = .ok made) : MadeInTurn files [path] made
  | cons {path parent : Path} {segment : Segment} {further : List Path} {middle made : FileSystem}
      (hextends : Extends parent path segment) (hparents : MadeInTurn files (parent :: further) middle)
      (hmake : middle.makeDirectory path = .ok made ∨ made = middle ∧ middle.Leads path) :
      MadeInTurn files (path :: parent :: further) made

/-- The missing paths are made in turn. The induction is on the ancestors. -/
theorem madeInTurn_of_makeDirectories (hclimbs : Climbs path above) (hnot : ¬ Provided files path)
    (hmake : files.makeDirectories path above = (.ok (), made)) : MadeInTurn files (missingPaths files path above) made := by
  induction hclimbs generalizing made with
  | nil path =>
    rcases makeDirectories_of_missing hnot hmake with hmake | ⟨parent, above, middle, habove, -⟩
    · rw [missingPaths_of_not_provided hnot]
      exact .last hmake
    · cases habove
  | @cons path parent above last hextends _ ih =>
    have hpaths : missingPaths files path (parent :: above) = path :: missingPaths files parent.path above :=
      missingPaths_of_not_provided hnot
    rw [hpaths]
    rcases makeDirectories_of_missing hnot hmake with hmake | ⟨_, _, middle, habove, hmissing, hparents, hmake⟩
    · rw [missingPaths_of_provided (provided_of_makeDirectory hextends hmake)]
      exact .last hmake
    · cases habove
      have hturn := ih hmissing hparents
      rw [missingPaths_of_not_provided hmissing] at hturn ⊢
      exact .cons hextends hturn hmake

theorem MadeInTurn.grows (h : MadeInTurn files paths made) : files.Grows made := by
  induction h with
  | last hmake => exact makeDirectory_grows hmake
  | cons _ _ hmake ih =>
    rcases hmake with hmake | ⟨rfl, -⟩
    · exact ih.trans (makeDirectory_grows hmake)
    · exact ih

theorem encard_newDirectories_of_grows (hgrows : files.Grows middle) (hmake : middle.makeDirectory path = .ok made) :
    (newDirectories files made).encard = (newDirectories files middle).encard + 1 := by
  rw [encard_newDirectories_trans hgrows (makeDirectory_grows hmake), encard_newDirectories_makeDirectory hmake]

/-- Each path brings one new directory at most, and none if it goes up. -/
theorem MadeInTurn.encard_le (h : MadeInTurn files paths made) :
    (newDirectories files made).encard ≤ paths.countP (!·.goesUp) := by
  induction h with
  | @last path made hmake =>
    rw [encard_newDirectories_makeDirectory hmake, List.countP_singleton, not_goesUp_of_makeDirectory hmake]
    rfl
  | @cons path parent segment further middle made _ hparents hmake ih =>
    rcases hmake with hmake | ⟨rfl, -⟩
    · rw [encard_newDirectories_of_grows hparents.grows hmake,
        List.countP_cons_of_pos (by rw [not_goesUp_of_makeDirectory hmake]; rfl), Nat.cast_add, Nat.cast_one]
      gcongr
    · calc (newDirectories files made).encard
          ≤ (parent :: further).countP (!·.goesUp) := ih
        _ ≤ (path :: parent :: further).countP (!·.goesUp) :=
          Nat.cast_le.2 ((List.sublist_cons_self path _).countP_le)

/-- A path leads to an empty directory, at a place where nothing was. -/
def Fresh (files made : FileSystem) (path : Path) : Prop :=
  ∃ place mode, made.find path = .ok ⟨place, .directory mode [], false⟩ ∧ files.bare? place = none

theorem fresh_of_makeDirectory (hgrows : files.Grows middle) (hmake : middle.makeDirectory path = .ok made) :
    Fresh files made path := by
  obtain ⟨vacancy, -, hnone, -, hfind⟩ := makeDirectory_spec hmake
  exact ⟨_, _, hfind, hgrows.bare?_eq_none hnone⟩

/-- If no path goes up, each of them has to be made, for its parent is new and empty. So the first path is new as well, and
there are as many new directories as paths. -/
theorem MadeInTurn.fresh (h : MadeInTurn files paths made) (hup : ∀ path ∈ paths, path.goesUp = false) :
    (∀ path ∈ paths.head?, Fresh files made path) ∧ (newDirectories files made).encard = paths.length := by
  induction h with
  | @last path made hmake =>
    refine ⟨?_, by rw [encard_newDirectories_makeDirectory hmake, List.length_singleton, Nat.cast_one]⟩
    rintro _ ⟨⟩
    exact fresh_of_makeDirectory (.refl files) hmake
  | @cons path parent segment further middle made hextends hparents hmake ih =>
    obtain ⟨hpath, hrest⟩ := List.forall_mem_cons.1 hup
    obtain ⟨hfresh, hcount⟩ := ih hrest
    obtain ⟨place, mode, hfind, -⟩ := hfresh parent rfl
    have hmake' : middle.makeDirectory path = .ok made :=
      hmake.resolve_right fun hthere => not_leads_of_empty hextends hpath hfind rfl hthere.2
    refine ⟨?_, ?_⟩
    · rintro _ ⟨⟩
      exact fresh_of_makeDirectory hparents.grows hmake'
    · calc (newDirectories files made).encard
          = (newDirectories files middle).encard + 1 := encard_newDirectories_of_grows hparents.grows hmake'
        _ = (parent :: further).length + 1 := by rw [hcount]
        _ = (path :: parent :: further).length := (Nat.cast_succ _).symm

/-! ## What is counted -/

/-- What comes of providing a directory: nothing is to be done; or it fails, and nothing is counted; or the missing paths are
made in turn, and as many directories are counted. -/
theorem provideDirectory_inv (path : Path) (progress : Progress) :
    Provided progress.files path ∧ provideDirectory path progress = .ok () progress ∨
      (∃ failure files, provideDirectory path progress = .fail failure ⟨files, progress.report⟩) ∨
      ∃ made, ¬ Provided progress.files path ∧
        MadeInTurn progress.files (missingPaths progress.files path path.pieces.ancestors) made ∧
        provideDirectory path progress = .ok () ⟨made, ⟨progress.report.copiedFiles, progress.report.createdDirectories +
          (missingPaths progress.files path path.pieces.ancestors).length⟩⟩ := by
  by_cases hprovided : Provided progress.files path
  · exact .inl ⟨hprovided, provideDirectory_of_provided hprovided⟩
  · right
    have hzero : missingCount progress.files path path.pieces.ancestors ≠ 0 :=
      fun hzero => hprovided (missingCount_eq_zero.1 hzero)
    unfold provideDirectory
    simp only [hzero, if_false]
    rcases hmake : progress.files.makeDirectories path path.pieces.ancestors with ⟨error | _, made⟩
    · exact .inl ⟨_, _, rfl⟩
    · refine .inr ⟨made, hprovided, madeInTurn_of_makeDirectories (Path.climbs_ancestors path) hprovided hmake, ?_⟩
      rw [length_missingPaths]

/-- What providing a directory counts is what it makes, as long as there is no `..` in the path. -/
theorem provideDirectory_forward {progress progress' : Progress} (hforward : .parent ∉ path.steps)
    (h : provideDirectory path progress = .ok () progress') :
    (¬ Provided progress.files path → Fresh progress.files progress'.files path) ∧
      (newDirectories progress.files progress'.files).encard + progress.report.createdDirectories =
        progress'.report.createdDirectories := by
  rcases provideDirectory_inv path progress with ⟨hprovided, hresult⟩ | ⟨_, _, hresult⟩ | ⟨made, hnot, hturn, hresult⟩
  · rw [hresult] at h
    cases h
    exact ⟨fun hnot => absurd hprovided hnot, by simp⟩
  · rw [hresult] at h
    cases h
  · rw [hresult] at h
    cases h
    obtain ⟨hfresh, hcount⟩ := hturn.fresh fun path' hmem =>
      (Path.climbs_ancestors path).not_goesUp hforward path' ((List.takeWhile_prefix _).subset hmem)
    refine ⟨fun _ => hfresh path (by rw [missingPaths_of_not_provided hnot]; rfl), ?_⟩
    rw [hcount, Nat.cast_add, add_comm]

/-- **What is counted for a path is right exactly if no missing part of it ends in `..`.** All missing paths are counted, but
only those that do not go up can be new directories: a name and the `..` behind it are two of the ancestors and one
directory. A failure counts nothing. -/
theorem provideDirectory_counts (path : Path) (progress : Progress) :
    let missing := missingPaths progress.files path path.pieces.ancestors
    match provideDirectory path progress with
    | ⟨.error _, after⟩ => after.report = progress.report
    | ⟨.ok _, after⟩ =>
      let new := (newDirectories progress.files after.files).encard
      after.report = ⟨progress.report.copiedFiles, progress.report.createdDirectories + missing.length⟩ ∧
        new ≤ missing.countP (!·.goesUp) ∧
        (after.report.createdDirectories = progress.report.createdDirectories + new ↔
          ∀ path' ∈ missing, path'.goesUp = false) := by
  intro missing
  rcases provideDirectory_inv path progress with ⟨hprovided, hresult⟩ | ⟨_, _, hresult⟩ | ⟨made, -, hturn, hresult⟩
  · have hnil : missing = [] := missingPaths_of_provided hprovided
    rw [hresult, hnil]
    simp [Attempt.ok]
  · rw [hresult]
    rfl
  · rw [hresult]
    refine ⟨rfl, hturn.encard_le, ?_⟩
    rw [Nat.cast_add, (ENat.addLECancellable_of_ne_top (ENat.natCast_ne_top _)).inj]
    constructor
    · intro hcount
      have hle : missing.length ≤ missing.countP (!·.goesUp) := by
        have hle := hturn.encard_le
        rw [← hcount] at hle
        exact_mod_cast hle
      have hall := List.countP_eq_length.1 (le_antisymm List.countP_le_length hle)
      exact fun path' hmem => by simpa using hall path' hmem
    · exact fun hup => (hturn.fresh hup).2.symm

/-- For `s/..` two directories are counted, and one is made. -/
theorem provideDirectory_counts_upward : ∃ after, provideDirectory (.ofString "s/..") ⟨.empty, ⟨0, 0⟩⟩ = .ok () after ∧
    after.report.createdDirectories = 2 ∧ (newDirectories .empty after.files).encard = 1 := by
  obtain ⟨-, hle, -⟩ := provideDirectory_counts (.ofString "s/..") ⟨.empty, ⟨0, 0⟩⟩
  refine ⟨_, rfl, rfl, le_antisymm hle (Set.one_le_encard_iff_nonempty.2 ⟨[directoryName], ⟨0o755, rfl⟩, ?_⟩)⟩
  rintro mode ⟨⟩

/-! ## Separation from the beginning -/

theorem withDirectory_of_provided (h : Provided files path) : files.withDirectory path = files := by
  unfold FileSystem.withDirectory
  rcases h with hempty | ⟨spot, hfind⟩
  · rw [makeDirectories_of_isEmpty hempty]
  · exact makeDirectories_of_find hfind _

/-- An empty directory reaches nothing but itself. -/
theorem reaches_of_empty {base spot : Spot} {mode : Mode} (hfind : files.find path = .ok base)
    (hbase : base.node = .directory mode []) (h : files.Reaches path spot) : spot = base := by
  have hdirectory : files.find path.directory = .ok base := (directory_of_find hfind).symm ▸ hfind
  rcases reaches_inv h with hsame | ⟨names, hne, hspot⟩
  · rw [hdirectory, Except.ok.injEq] at hsame
    exact hsame.symm
  · obtain ⟨links, hfollow⟩ := follow_of_find_joinAll hdirectory hne hspot
    obtain ⟨name, names, rfl⟩ := List.exists_cons_of_ne_nil hne
    exact absurd hfollow (not_follow_empty hbase)

/-- A target that is there, or is new, is separated from the source if it was so at first. -/
theorem separated_of_atFirst (hsep : files.SeparatedAtFirst source target)
    (htarget : ¬ Provided files target → Fresh files (files.withDirectory target) target) : files.Separated source target := by
  refine ⟨?_, hsep.not_receives⟩
  by_cases hprovided : Provided files target
  · rw [withDirectory_of_provided hprovided]
    exact hsep.apart
  · obtain ⟨place, mode, hfind, hnone⟩ := htarget hprovided
    intro a b hreached hreached'
    obtain rfl := reaches_of_empty hfind rfl hreached'
    rintro (⟨hplace, hlive⟩ | ⟨id, -, hid⟩)
    · -- Nothing was at the place, so that nothing could be reached there.
      obtain ⟨names, hnames⟩ := hreached
      have hthere := bare?_of_node? ((find_becomes hnames).node? hlive)
      rw [hplace, hnone] at hthere
      cases hthere
    · cases hid

theorem plainBelow_of_atFirst (hplain : files.PlainBelow target)
    (htarget : ¬ Provided files target → Fresh files (files.withDirectory target) target) :
    (files.withDirectory target).PlainBelow target := by
  by_cases hprovided : Provided files target
  · rwa [withDirectory_of_provided hprovided]
  · obtain ⟨place, mode, hfind, -⟩ := htarget hprovided
    have hmade : (files.withDirectory target).find target.directory = .ok ⟨place, .directory mode [], false⟩ := by
      rw [directory_of_find hfind]
      exact hfind
    exact plainBelow_of_isPlain hmade rfl

end Deployment

end ConsoleKit
