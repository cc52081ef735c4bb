import ConsoleKit.Proofs.Deployment.Conflicts
import ConsoleKit.Proofs.Deployment.Containment
import ConsoleKit.Proofs.Deployment.Likeness
import ConsoleKit.Proofs.Deployment.Skeleton

/-!
# Deploying a directory into itself

If the target is inside the source, the deployment goes through directories that it makes itself. Below the source, the
names that lead to the target can be repeated without end: for each directory that is made for them there is a next one
(`Repeats.next`), and it is there before the directory is listed (`Nested.mem_listed`). So no such deployment succeeds,
whatever else is in the source (`Nested.descend_fails`). It fails after it has made its target, if that can be made at all
(`deploy_into_source`).
-/

namespace ConsoleKit

open FileSystem

namespace Deployment

open ConsoleKit.Path (along)

variable {files files' : FileSystem} {order : ListingOrder} {source target : Path} {location place : Location}
  {names period front : List FileName} {name : FileName} {progress : Progress}

/-! ## Names that are repeated -/

/-- Names are a beginning of the endless repetition of some names. -/
def Repeats (period names : List FileName) : Prop :=
  names <+: period ++ names

theorem Repeats.nil (period : List FileName) : Repeats period [] :=
  List.nil_prefix

/-- There is always a name more. -/
theorem Repeats.next (h : Repeats period names) (hne : period ≠ []) :
    ∃ name rest, period ++ names = names ++ name :: rest ∧ Repeats period (names ++ [name]) := by
  obtain ⟨rest, hrest⟩ := h
  cases rest with
  | nil =>
    have hlength := congrArg List.length hrest
    rw [List.append_nil, List.length_append] at hlength
    exact absurd (List.length_eq_zero_iff.1 (by omega)) hne
  | cons name rest =>
    refine ⟨name, rest, hrest.symm, rest ++ [name], ?_⟩
    rw [← List.append_assoc period, ← hrest]
    simp

/-- The place of a name more is on the way to that of its repetition. -/
theorem reverse_next {rest : List FileName} (hnext : period ++ front = front ++ name :: rest) (place : Location) :
    (period ++ front).reverse ++ place = rest.reverse ++ name :: (front.reverse ++ place) := by
  rw [hnext]
  simp

/-! ## A target inside the source -/

/-- A deployment into a target inside the source, in a file system without links. The target is spelled by names, from a
directory of the file system on; others lead to it from the source. -/
structure Nested (files : FileSystem) (source target : Path) (location : Location) (names : List FileName)
    (place : Location) (period : List FileName) : Prop where
  linkFree : files.LinkFree []
  source : ∃ mode entries, files.find source = .ok ⟨place, .directory mode entries, false⟩
  spells : files.Spells target location names
  named : names ≠ []
  inside : names.reverse ++ location = period.reverse ++ place
  strict : period ≠ []

namespace Nested

theorem grows (h : Nested files source target location names place period) (hgrows : files.Grows files')
    (hfree : files'.LinkFree []) : Nested files' source target location names place period := by
  refine ⟨hfree, ?_, h.spells.grows hgrows, h.named, h.inside, h.strict⟩
  obtain ⟨mode, entries, hfind⟩ := h.source
  obtain ⟨entries', hfind'⟩ := find_directory_grows hgrows hfind
  exact ⟨mode, entries', hfind'⟩

theorem runs (h : Nested files source target location names place period) (hrun : Runs source target files files') :
    Nested files' source target location names place period :=
  h.grows hrun.grows (linkFree_of_runs hrun h.linkFree)

theorem made (h : Nested files source target location names place period) :
    Nested (files.withDirectory target) source target location names place period :=
  h.grows (withDirectory_madeAt files target).grows ((withDirectory_madeAt files target).linkFree h.linkFree)

theorem linkFree_location (h : Nested files source target location names place period) : files.LinkFree location := by
  simpa using h.linkFree.below location

theorem not_isEmpty (h : Nested files source target location names place period) : ¬ target.isEmpty := by
  intro hempty
  have hsteps := h.spells.steps
  rw [Path.steps_of_isEmpty hempty] at hsteps
  exact along_ne_nil h.named hsteps.symm

theorem isDirectory (h : Nested files source target location names place period) : files.isDirectory source = true := by
  obtain ⟨mode, entries, hfind⟩ := h.source
  exact isDirectory_iff_find.2 ⟨_, mode, entries, hfind, rfl⟩

/-- What is in the source is below its place. -/
theorem find_source (h : Nested files source target location names place period) {spot : Spot}
    (hfind : files.find (source.joinAll front) = .ok spot) :
    ∃ node, files.node? (front.reverse ++ place) = some node ∧ spot = ⟨front.reverse ++ place, node, false⟩ := by
  obtain ⟨mode, entries, hbase⟩ := h.source
  exact find_joinAll_inv (h.linkFree.linkFreeBelow source) ((directory_of_find hbase).symm ▸ hbase) rfl hfind

/-- What is in the target is in the source, too. -/
theorem find_target (h : Nested files source target location names place period) {spot : Spot}
    (hfind : files.find (target.joinAll front) = .ok spot) :
    ∃ node, files.node? ((period ++ front).reverse ++ place) = some node ∧
      spot = ⟨(period ++ front).reverse ++ place, node, false⟩ := by
  have hplace : (names ++ front).reverse ++ location = (period ++ front).reverse ++ place := by
    rw [List.reverse_append, List.reverse_append, List.append_assoc, List.append_assoc, h.inside]
  rw [← hplace]
  exact (h.spells.joinAll front).find_inv h.linkFree_location hfind

/-- If a directory of the source has one in the target, its entry on the way to that one is listed. -/
theorem mem_listed (h : Nested files source target location names place period) {rest all : List FileName}
    (hnext : period ++ front = front ++ name :: rest) (hleads : files.Leads (target.joinAll front))
    (hlist : files.list (source.joinAll front) = .ok all) : name ∈ all := by
  obtain ⟨_, hfind⟩ := hleads
  obtain ⟨node, hnode, -⟩ := h.find_target hfind
  obtain ⟨spot, _, _, hspot, -, -⟩ := list_inv hlist
  obtain ⟨_, -, rfl⟩ := h.find_source hspot
  rw [reverse_next hnext] at hnode
  exact (mem_list_iff hlist hspot).2 ⟨rfl, node?_above hnode⟩

/-- And that entry is a directory, if the one in the target is one. -/
theorem isDirectory_next (h : Nested files source target location names place period) {rest : List FileName}
    (hnext : period ++ front = front ++ name :: rest) (hdirectory : files.isDirectory (target.joinAll front) = true)
    (hleads : files.Leads (source.joinAll (front ++ [name]))) : files.isDirectory (source.joinAll (front ++ [name])) = true := by
  obtain ⟨_, mode, entries, hfind, hentries⟩ := isDirectory_iff_find.1 hdirectory
  obtain ⟨node, hnode, rfl⟩ := h.find_target hfind
  cases hentries
  rw [reverse_next hnext] at hnode
  have habove := kind?_above (kind?_eq_directory_iff.2 ⟨mode, entries, hnode⟩)
  obtain ⟨mode', entries', hnode'⟩ := kind?_eq_directory_iff.1 habove
  obtain ⟨spot, hspot⟩ := hleads
  obtain ⟨node', hsame, rfl⟩ := h.find_source hspot
  rw [List.reverse_concat, List.cons_append, hnode', Option.some.injEq] at hsame
  exact isDirectory_iff_find.2 ⟨_, mode', entries', hspot, hsame.symm⟩

end Nested

/-! ## Parts that fail -/

/-- A part of a deployment does not succeed. -/
def Attempt.Fails {α : Type} (attempt : Attempt α) : Prop :=
  ∃ failure, attempt.result = .error failure

section Fails

variable {α β : Type}

theorem Attempt.fails_fail (failure : Failure) (progress : Progress) : (Attempt.fail failure progress : Attempt α).Fails :=
  ⟨failure, rfl⟩

theorem Attempt.fails_andThen {attempt : Attempt α} {next : α → Progress → Attempt β}
    (h : ∀ value progress, attempt = .ok value progress → (next value progress).Fails) : (attempt.andThen next).Fails := by
  rcases attempt.ok_or_fail with ⟨value, progress, rfl⟩ | ⟨failure, progress, rfl⟩
  · exact h value progress rfl
  · exact fails_fail failure progress

/-- Entries fail, or what comes after them does. -/
theorem Course.fails_andThen {root : Job} {start : Progress} {done : List (List FileName) → α → Progress → Prop}
    {attempt : Attempt α} {next : α → Progress → Attempt β} (h : Course root files start done attempt)
    (hnext : ∀ trace value middle, Handles root trace start middle → done trace value middle → (next value middle).Fails) :
    (attempt.andThen next).Fails := by
  cases h with
  | stuck _ _ => exact Attempt.fails_fail _ _
  | done hhandles hdone => exact hnext _ _ _ hhandles hdone

/-- Where one thing fails, whenever its turn is, not all of them succeed. -/
theorem Attempt.fails_forEach {act : α → Progress → Attempt Unit} {as : List α} {a : α} (always : Progress → Prop)
    (hact : ∀ a ∈ as, ∀ progress, always progress → always (act a progress).progress) (hmem : a ∈ as)
    (hfails : ∀ progress, always progress → (act a progress).Fails) (hstart : always progress) :
    (Attempt.forEach act as progress).Fails := by
  induction as generalizing progress with
  | nil => cases hmem
  | cons first as ih =>
    have hfirst := hact first (.head _) progress hstart
    refine fails_andThen fun _ middle hok => ?_
    rcases List.mem_cons.1 hmem with rfl | hmem
    · obtain ⟨failure, hfail⟩ := hfails progress hstart
      rw [hok] at hfail
      cases hfail
    · rw [hok] at hfirst
      exact ih (fun a ha => hact a (.tail _ ha)) hmem hfirst

end Fails

/-- A directory of the source that repeats the names of the target cannot be gone through once the target has one for it.
The induction is on the room: the directory has an entry that goes on with the names, and when the turn of that entry comes,
the target has one for it, too. -/
theorem Nested.descend_fails (room : Nat) (h : Nested progress.files source target location names place period)
    (hrepeats : Repeats period front) (hleads : progress.files.Leads (target.joinAll front))
    (hdirectory : progress.files.isDirectory (source.joinAll front) = true) :
    (descend order room ((Job.mk source target).along front) progress).Fails := by
  induction room generalizing front progress with
  | zero => exact Attempt.fails_fail _ _
  | succ room ih =>
    obtain ⟨name, rest, hnext, hrepeats'⟩ := hrepeats.next h.strict
    refine (handleDirectory_course .refl (.inr hleads) hdirectory).fails_andThen fun trace inners middle hhandles hdone => ?_
    obtain ⟨all, listed, hlist, hperm, rfl, rfl⟩ := hdone
    have hmiddle := h.runs hhandles.runs
    have hname : name ∈ listed := hperm.mem_iff.2 (h.mem_listed hnext hleads hlist)
    have hmem : front ++ [name] ∈ listed.map fun name => front ++ [name] := mem_siblings_iff.2 hname
    have htarget : middle.files.isDirectory (target.joinAll front) = true := by
      have hhandled : middle.files.isDirectory (target.joinAll front).directory = true := hhandles.isDirectory hmem
      rwa [directory_eq_self (Path.not_isEmpty_joinAll h.not_isEmpty front)] at hhandled
    have hinner := hmiddle.isDirectory_next hnext htarget (hhandles.leads hmem)
    refine Attempt.fails_forEach (fun progress' => Runs source target middle.files progress'.files) ?_ ?_ ?_ .refl
      (a := (Job.mk source target).along (front ++ [name]))
    · intro job hjob progress' hrun
      obtain ⟨entry, hentry, rfl⟩ := List.mem_map.1 (List.mem_reverse.1 hjob)
      obtain ⟨hentry, hentryDirectory⟩ := List.mem_filter.1 hentry
      have hprovided := (hhandles.provided hentry hentryDirectory).grows hrun.grows
      exact hrun.trans (descend_meets room rfl hprovided).always
    · exact List.mem_reverse.2 (List.mem_map.2 ⟨_, List.mem_filter.2 ⟨hmem, hinner⟩, rfl⟩)
    · intro progress' hrun
      have hprovided := (hhandles.provided hmem hinner).grows hrun.grows
      have hleads' := hprovided.resolve_left (Path.not_isEmpty_joinAll h.not_isEmpty (front ++ [name]))
      exact ih (hmiddle.runs hrun) hrepeats' hleads' (isDirectory_grows hinner hrun.grows)

/-! ## What becomes of the target -/

namespace Nested

/-- If the target is a directory in the end, all that was on the way to it from the beginning were directories. -/
theorem passable (h : Nested files source target location names place period) (hgrows : files.Grows files')
    (hfree : files'.LinkFree []) (hdirectory : files'.isDirectory target = true) :
    checkPath target = .ok () ∧ files.Passable location names := by
  obtain ⟨_, mode, entries, hfind, hentries⟩ := isDirectory_iff_find.1 hdirectory
  refine ⟨(follow_of_find hfind).1, ?_⟩
  obtain ⟨node, hnode, rfl⟩ := (h.grows hgrows hfree).spells.find_inv (h.grows hgrows hfree).linkFree_location hfind
  cases hentries
  rintro front ⟨rest, rfl⟩ kind hkind
  rw [List.reverse_append, List.append_assoc] at hnode
  have habove := kind?_above (kind?_eq_directory_iff.2 ⟨mode, entries, hnode⟩)
  exact Option.some.inj ((hgrows.kind? hkind).symm.trans habove)

end Nested

/-- Nothing is made for a path that something else than a directory is in the way of. -/
theorem withDirectory_of_not_passable (h : files.Spells target location names) (hcheck : checkPath target = .ok ())
    (hfree : files.LinkFree location) (hblocked : ¬ files.Passable location names) : files.withDirectory target = files := by
  have hmade := withDirectory_madeAt files target
  obtain ⟨front, hfront, kind, hkind, hne⟩ : ∃ front, front <+: names ∧
      ∃ kind, files.kind? (front.reverse ++ location) = some kind ∧ kind ≠ .directory := by
    simpa [Passable] using hblocked
  refine eq_of_bare? (fun place => ?_) hmade.shared hmade.workingDirectory
  rcases hmade.bare? place with hsame | ⟨hnone, ⟨mode, hnew⟩, -⟩
  · exact hsame
  exfalso
  have hkinds := kind?_withDirectory h hcheck hfree place
  rw [kind?_eq_map_bare?, kind?_eq_map_bare?, hnone, hnew] at hkinds
  obtain ⟨-, -, hin⟩ := hkinds.resolve_left (by simp)
  obtain ⟨rest, rfl⟩ := hfront
  have hin' : front.reverse ++ location <:+ (front ++ rest).reverse ++ location := by simp
  -- A new directory is above what is in the way, or below it; but nothing new is above anything that was there.
  rcases List.suffix_or_suffix_of_suffix hin hin' with ⟨below, heq⟩ | ⟨below, rfl⟩
  · obtain ⟨node, hnode, -⟩ := kind?_eq_some_iff.1 hkind
    obtain ⟨node', hnode'⟩ := node?_above (heq ▸ hnode)
    rw [bare?_of_node? hnode'] at hnone
    cases hnone
  · have hdirectory : (files.withDirectory target).kind? (below ++ (front.reverse ++ location)) = some .directory := by
      rw [kind?_eq_map_bare?, hnew]
      rfl
    exact hne (Option.some.inj ((hmade.grows.kind? hkind).symm.trans (kind?_above hdirectory)))

/-! ## The whole deployment -/

namespace Nested

theorem deploy_fails (h : Nested files source target location names place period) (order : ListingOrder) :
    ∃ failure, (files.deploy order source target).result = .error failure := by
  obtain ⟨mode, hstat⟩ := isDirectory_iff.1 h.isDirectory
  have hstart : (start order source target ⟨files, ⟨0, 0⟩⟩).Fails := by
    rw [start, hstat]
    refine Attempt.fails_andThen fun _ middle hprovide => ?_
    have hmeets := provideDirectory_meets target ⟨files, ⟨0, 0⟩⟩
    rw [hprovide] at hmeets
    have hmade : middle.files = files.withDirectory target := hmeets.always
    have hprovided : Provided middle.files target := hmeets.success () rfl
    have hmiddle : Nested middle.files source target location names place period := hmade ▸ h.made
    exact hmiddle.descend_fails _ (.nil period) (hprovided.resolve_left h.not_isEmpty) hmiddle.isDirectory
  obtain ⟨failure, hfailure⟩ := hstart
  refine ⟨failure, ?_⟩
  rw [FileSystem.deploy, hfailure]
  rfl

/-- The target is made if that is possible. -/
theorem isDirectory_target (h : Nested files source target location names place period) (order : ListingOrder)
    (hcheck : checkPath target = .ok ()) (hpassable : files.Passable location names) :
    (files.deploy order source target).files.isDirectory target = true := by
  have hmake := makeDirectories_of_passable h.spells hcheck h.linkFree_location hpassable
  have hmade := isDirectory_of_makeDirectories (congrArg Prod.fst hmake)
  rw [hmake] at hmade
  have hruns := (deploy_goes files order source target).runs h.isDirectory
  exact isDirectory_grows (hmade.resolve_left h.not_isEmpty) hruns.grows

/-- Nothing changes if that is not possible. -/
theorem files_eq (h : Nested files source target location names place period) (order : ListingOrder)
    (hblocked : ¬ (checkPath target = .ok () ∧ files.Passable location names)) :
    (files.deploy order source target).files = files := by
  have hruns := (deploy_goes files order source target).runs h.isDirectory
  have hfree := (h.made.runs hruns).linkFree
  rcases Relation.ReflTransGen.cases_tail hruns with hsame | ⟨_, -, hstep⟩
  · rw [hsame]
    by_cases hcheck : checkPath target = .ok ()
    · exact withDirectory_of_not_passable h.spells hcheck h.linkFree_location fun hpassable => hblocked ⟨hcheck, hpassable⟩
    · exact makeDirectories_of_not_accepted hcheck _
  · have hdirectory := isDirectory_of_step hstep
    rw [directory_eq_self h.not_isEmpty] at hdirectory
    exact absurd (h.passable (deploy_grows files order source target) hfree hdirectory) hblocked

end Nested

/-- **A directory is not deployed into itself.** In a file system without links, a deployment into a target that is inside
the source fails, whatever is there already. Unless the system does not accept the path of the target, or something else
than a directory is in its way, the target is there afterwards; and otherwise nothing has changed. -/
theorem deploy_into_source (files : FileSystem) (order : ListingOrder) (source target : Path) (location place : Location)
    (names period : List FileName) (h : Nested files source target location names place period) :
    (∃ failure, (files.deploy order source target).result = .error failure) ∧
      (checkPath target = .ok () → files.Passable location names →
        (files.deploy order source target).files.isDirectory target = true) ∧
      (¬ (checkPath target = .ok () ∧ files.Passable location names) → (files.deploy order source target).files = files) :=
  ⟨h.deploy_fails order, h.isDirectory_target order, h.files_eq order⟩

/-- A file system with an empty directory at `s`. -/
def emptyDirectory : FileSystem :=
  built (FileSystem.empty.ensurePath (.ofString "s"))

theorem nested_emptyDirectory :
    Nested emptyDirectory (.ofString "s") (.ofString "s/t") [] [directoryName, targetName] [directoryName] [targetName] :=
  ⟨(ordinary_of_isOrdinary (by cbv)).linkFree [], ⟨_, _, rfl⟩, ⟨rfl, _, _, rfl⟩, by simp, rfl, by simp⟩

theorem passable_emptyDirectory : emptyDirectory.Passable [] [directoryName, targetName] := by
  intro front hfront kind hkind
  have hmem : front ∈ [directoryName, targetName].inits := List.mem_inits _ _ |>.2 hfront
  simp only [List.inits, List.map_cons, List.map_nil, List.mem_cons, List.not_mem_nil, or_false] at hmem
  rcases hmem with rfl | rfl | rfl
  · exact (Option.some.inj hkind).symm
  · exact (Option.some.inj hkind).symm
  · cases hkind

theorem deploy_into_source_emptyDirectory :
    Nested emptyDirectory (.ofString "s") (.ofString "s/t") [] [directoryName, targetName] [directoryName] [targetName] ∧
      emptyDirectory.isDirectory (.ofString "s/t") = false ∧
      (∃ failure, (emptyDirectory.deploy .byName (.ofString "s") (.ofString "s/t")).result = .error failure) ∧
      (emptyDirectory.deploy .byName (.ofString "s") (.ofString "s/t")).files.isDirectory (.ofString "s/t") = true := by
  obtain ⟨hfails, hmade, -⟩ := deploy_into_source emptyDirectory .byName (.ofString "s") (.ofString "s/t") [] [directoryName]
    [directoryName, targetName] [targetName] nested_emptyDirectory
  exact ⟨nested_emptyDirectory, by cbv, hfails, hmade rfl passable_emptyDirectory⟩

/-- So a deployment into a new directory of the source fails, and leaves that directory there. -/
theorem deploy_into_missing (h : Nested files source target location names place period) (order : ListingOrder)
    (hcheck : checkPath target = .ok ()) (hpassable : files.Passable location names) (hmissing : ¬ files.Leads target) :
    (∃ failure, (files.deploy order source target).result = .error failure) ∧
      (files.deploy order source target).files ≠ files := by
  refine ⟨h.deploy_fails order, fun hsame => ?_⟩
  have hdirectory := h.isDirectory_target order hcheck hpassable
  rw [hsame] at hdirectory
  exact hmissing (leads_of_isDirectory hdirectory)

end Deployment

end ConsoleKit
