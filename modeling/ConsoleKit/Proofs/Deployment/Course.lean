import ConsoleKit.Proofs.Deployment.Run

/-!
# The course of a deployment

Once its target is provided, a deployment handles one entry of the source after the other, until all are handled or one
fails, which then changes nothing. This module makes a list of the entries that are handled, each by the names that lead
to it (`Handles`), and says what the list holds: no entry twice, and, if the deployment succeeds, everything that was
listed in a directory on the way (`Complete`). The main statement is `deploy_course`; which entry comes when is left open,
so that it holds for every order of listing.
-/

namespace ConsoleKit

open Deployment

namespace Deployment

open FileSystem

/-! ## One entry -/

theorem Attempt.ok_or_fail {α : Type} (attempt : Attempt α) :
    (∃ value progress, attempt = .ok value progress) ∨ ∃ failure progress, attempt = .fail failure progress := by
  obtain ⟨result, progress⟩ := attempt
  cases result with
  | ok value => exact .inl ⟨value, progress, rfl⟩
  | error failure => exact .inr ⟨failure, progress, rfl⟩

section Attempt

variable {α β : Type} {attempt : Attempt α} {next : α → Progress → Attempt β} {progress : Progress}

theorem Attempt.ok_andThen (value : α) (progress : Progress) (next : α → Progress → Attempt β) :
    (Attempt.ok value progress).andThen next = next value progress :=
  rfl

theorem Attempt.fail_andThen (failure : Failure) (progress : Progress) (next : α → Progress → Attempt β) :
    (Attempt.fail failure progress).andThen next = .fail failure progress :=
  rfl

theorem Attempt.andThen_ok_inv {value : β} (h : attempt.andThen next = .ok value progress) :
    ∃ first middle, attempt = .ok first middle ∧ next first middle = .ok value progress := by
  rcases attempt.ok_or_fail with ⟨first, middle, rfl⟩ | ⟨failure, middle, rfl⟩
  · exact ⟨first, middle, rfl, h⟩
  · rw [Attempt.fail_andThen] at h
    cases h

theorem Attempt.andThen_fail_inv {failure : Failure} (h : attempt.andThen next = .fail failure progress) :
    attempt = .fail failure progress ∨
      ∃ first middle, attempt = .ok first middle ∧ next first middle = .fail failure progress := by
  rcases attempt.ok_or_fail with ⟨first, middle, rfl⟩ | ⟨failure', middle, rfl⟩
  · exact .inr ⟨first, middle, rfl, h⟩
  · rw [Attempt.fail_andThen] at h
    cases h
    exact .inl rfl

end Attempt

/-- In a directory that can take entries nothing has changed if one cannot be provided. -/
theorem provideDirectory_join_fail {path : Path} {name : FileName} {progress progress' : Progress} {failure : Failure}
    (h : Provided progress.files path) (hfail : provideDirectory (path.join name) progress = .fail failure progress') :
    progress' = progress := by
  unfold provideDirectory at hfail
  by_cases hzero : missingCount progress.files (path.join name) (path.join name).pieces.ancestors = 0
  · simp only [hzero, if_true] at hfail
    cases hfail
  · simp only [hzero, if_false] at hfail
    rcases makeDirectories_join h name with ⟨made, -, hmade⟩ | hsame
    · rw [hmade] at hfail
      cases hfail
    · rcases hmake : progress.files.makeDirectories (path.join name) (path.join name).pieces.ancestors with ⟨error | _, made⟩
      · rw [hmake] at hfail hsame
        cases hfail
        have hmade : made = progress.files := hsame
        rw [hmade]
      · rw [hmake] at hfail
        cases hfail

theorem copyFile_fail {read written : Path} {progress progress' : Progress} {failure : Failure}
    (h : copyFile read written progress = .fail failure progress') : progress' = progress := by
  unfold copyFile at h
  split at h
  · cases h
    rfl
  · cases h

/-- An entry fails where the system cannot look at it, or where its directory cannot be provided, or where it cannot be
copied. -/
theorem handleEntry_fail_inv {job : Job} {name : FileName} {progress progress' : Progress} {failure : Failure}
    (h : handleEntry job name progress = .fail failure progress') :
    progress' = progress ∨ provideDirectory (job.inner name).target progress = .fail failure progress' ∨
      copyFile (job.inner name).source (job.inner name).target progress = .fail failure progress' := by
  cases hstat : progress.files.stat (job.inner name).source with
  | error error =>
    rw [handleEntry, hstat] at h
    cases h
    exact .inl rfl
  | ok entry =>
    by_cases hdirectory : ∃ mode, entry = .directory mode
    · obtain ⟨mode, rfl⟩ := hdirectory
      rw [handleEntry_directory hstat] at h
      rcases Attempt.andThen_fail_inv h with hprovide | ⟨_, _, -, hok⟩
      · exact .inr (.inl hprovide)
      · cases hok
    · rw [handleEntry_other hstat fun mode heq => hdirectory ⟨mode, heq⟩] at h
      rcases Attempt.andThen_fail_inv h with hcopy | ⟨_, _, -, hok⟩
      · exact .inr (.inr hcopy)
      · cases hok

/-- An entry that is handled is a directory, for which one is provided, or it is copied as a file. -/
theorem handleEntry_ok_inv {job : Job} {name : FileName} {progress progress' : Progress} {inner : Option Job}
    (h : handleEntry job name progress = .ok inner progress') :
    (∃ mode, progress.files.stat (job.inner name).source = .ok (.directory mode) ∧ inner = some (job.inner name) ∧
        provideDirectory (job.inner name).target progress = .ok () progress') ∨
      ∃ entry, progress.files.stat (job.inner name).source = .ok entry ∧ (∀ mode, entry ≠ .directory mode) ∧
        inner = none ∧ copyFile (job.inner name).source (job.inner name).target progress = .ok () progress' := by
  cases hstat : progress.files.stat (job.inner name).source with
  | error error =>
    rw [handleEntry, hstat] at h
    cases h
  | ok entry =>
    by_cases hdirectory : ∃ mode, entry = .directory mode
    · obtain ⟨mode, rfl⟩ := hdirectory
      rw [handleEntry_directory hstat] at h
      obtain ⟨_, middle, hprovide, hok⟩ := Attempt.andThen_ok_inv h
      cases hok
      exact .inl ⟨mode, rfl, rfl, hprovide⟩
    · have hentry : ∀ mode, entry ≠ .directory mode := fun mode heq => hdirectory ⟨mode, heq⟩
      rw [handleEntry_other hstat hentry] at h
      obtain ⟨_, middle, hcopy, hok⟩ := Attempt.andThen_ok_inv h
      cases hok
      exact .inr ⟨entry, rfl, hentry, rfl, hcopy⟩

/-- An entry that fails changes nothing. -/
theorem handleEntry_fail {job : Job} {name : FileName} {progress progress' : Progress} {failure : Failure}
    (h : Provided progress.files job.target) (hfail : handleEntry job name progress = .fail failure progress') :
    progress' = progress := by
  rcases handleEntry_fail_inv hfail with hsame | hprovide | hcopy
  · exact hsame
  · exact provideDirectory_join_fail h hprovide
  · exact copyFile_fail hcopy

/-- An entry that is handled is something, and remains to be gone through if it is a directory. -/
theorem handleEntry_ok {job : Job} {name : FileName} {progress progress' : Progress} {inner : Option Job}
    (h : handleEntry job name progress = .ok inner progress') : progress.files.Leads (job.inner name).source ∧
      inner = if progress.files.isDirectory (job.inner name).source then some (job.inner name) else none := by
  rcases handleEntry_ok_inv h with ⟨mode, hstat, hinner, -⟩ | ⟨entry, hstat, hentry, hinner, -⟩
  · rw [if_pos (isDirectory_iff.2 ⟨mode, hstat⟩)]
    exact ⟨leads_of_stat hstat, hinner⟩
  · have hnot : ¬ progress.files.isDirectory (job.inner name).source = true := by
      intro hdirectory
      obtain ⟨mode, hmode⟩ := isDirectory_iff.1 hdirectory
      rw [hstat, Except.ok.injEq] at hmode
      exact hentry mode hmode
    rw [if_neg hnot]
    exact ⟨leads_of_stat hstat, hinner⟩

/-! ## Entries that are handled -/

/-- Entries are handled one after the other, each in a directory whose target can take it. They are given by the names
that lead to them. -/
inductive Handles (root : Job) : List (List FileName) → Progress → Progress → Prop where
  | nil (progress : Progress) : Handles root [] progress progress
  | cons {names : List FileName} {name : FileName} {inner : Option Job} {trace : List (List FileName)} {a b c : Progress}
      (hprovided : Provided a.files (root.along names).target)
      (hentry : handleEntry (root.along names) name a = .ok inner b) (hrest : Handles root trace b c) :
      Handles root ((names ++ [name]) :: trace) a c

section Handles

variable {root : Job} {trace trace' : List (List FileName)} {names : List FileName} {a b c : Progress}

theorem handleEntry_runs {name : FileName} {inner : Option Job}
    (hprovided : Provided a.files (root.along names).target)
    (hentry : handleEntry (root.along names) name a = .ok inner b) :
    Runs root.source root.target a.files b.files := by
  have hrun := (handleEntry_meets rfl hprovided name).always
  rw [hentry] at hrun
  exact hrun

theorem Handles.runs (h : Handles root trace a b) : Runs root.source root.target a.files b.files := by
  induction h with
  | nil progress => exact .refl
  | cons hprovided hentry _ ih => exact (handleEntry_runs hprovided hentry).trans ih

theorem Handles.single {name : FileName} {inner : Option Job} (hprovided : Provided a.files (root.along names).target)
    (hentry : handleEntry (root.along names) name a = .ok inner b) : Handles root [names ++ [name]] a b :=
  .cons hprovided hentry (.nil b)

theorem Handles.append (h : Handles root trace a b) (h' : Handles root trace' b c) :
    Handles root (trace ++ trace') a c := by
  induction h with
  | nil progress => exact h'
  | cons hprovided hentry _ ih => exact .cons hprovided hentry (ih h')

/-- What was handled is in the source. -/
theorem Handles.leads (h : Handles root trace a b) (hmem : names ∈ trace) :
    b.files.Leads (root.source.joinAll names) := by
  induction h with
  | nil progress => cases hmem
  | @cons front name inner trace a b c hprovided hentry hrest ih =>
    rcases List.mem_cons.1 hmem with rfl | hmem
    · have hleads := (handleEntry_ok hentry).1
      rw [Job.inner_along] at hleads
      exact hleads.grows ((handleEntry_runs hprovided hentry).grows.trans hrest.runs.grows)
    · exact ih hmem

/-- Entries are handled up to one, then that one, then the rest. -/
theorem Handles.split {before after : List (List FileName)} {front : List FileName} {name : FileName}
    (h : Handles root (before ++ (front ++ [name]) :: after) a c) :
    ∃ middle next inner, Handles root before a middle ∧ Provided middle.files (root.along front).target ∧
      handleEntry (root.along front) name middle = .ok inner next ∧ Handles root after next c := by
  induction before generalizing a with
  | nil =>
    generalize hnames : front ++ [name] = names at h
    cases h with
    | cons hprovided hentry hrest =>
      obtain ⟨rfl, hname⟩ := List.append_inj' hnames rfl
      cases hname
      exact ⟨_, _, _, .nil _, hprovided, hentry, hrest⟩
  | cons first before ih =>
    cases h with
    | cons hprovided hentry hrest =>
      obtain ⟨middle, next, inner, hbefore, hlast⟩ := ih hrest
      exact ⟨middle, next, inner, .cons hprovided hentry hbefore, hlast⟩

/-- An entry on the list was handled at some moment. -/
theorem Handles.handled {front : List FileName} {name : FileName} (h : Handles root trace a b)
    (hmem : front ++ [name] ∈ trace) : ∃ before after inner, Runs root.source root.target a.files before.files ∧
      Provided before.files (root.along front).target ∧ handleEntry (root.along front) name before = .ok inner after ∧
      Runs root.source root.target after.files b.files := by
  obtain ⟨_, _, rfl⟩ := List.append_of_mem hmem
  obtain ⟨before, after, inner, hbefore, hprovided, hentry, hafter⟩ := h.split
  exact ⟨before, after, inner, hbefore.runs, hprovided, hentry, hafter.runs⟩

/-- A directory of the source that was handled has one at the target that takes its entries. -/
theorem Handles.provided (h : Handles root trace a b) (hmem : names ∈ trace)
    (hdirectory : b.files.isDirectory (root.source.joinAll names) = true) :
    Provided b.files (root.along names).target := by
  induction h with
  | nil progress => cases hmem
  | @cons front name inner trace a b c hprovided hentry hrest ih =>
    rcases List.mem_cons.1 hmem with rfl | hmem
    · have hrun := handleEntry_runs hprovided hentry
      have hleads := (handleEntry_ok hentry).1
      have hmeets := handleEntry_meets rfl hprovided name
      rw [hentry] at hmeets
      have hcovered := (hmeets.success inner rfl).covered name (.head _)
      rw [Job.inner_along] at hleads hcovered
      have hsame := isDirectory_eq (hrun.grows.trans hrest.runs.grows) hleads
      obtain ⟨mode, hstat⟩ := isDirectory_iff.1 (hsame.symm.trans hdirectory)
      exact .inr ((hcovered.directory mode hstat).grows hrest.runs.grows)
    · exact ih hmem hdirectory

end Handles

/-! ## What the list of entries holds -/

/-- A directory of the source was listed at some moment between two. -/
def ListedBetween (root : Job) (files files' : FileSystem) (names listed : List FileName) : Prop :=
  ∃ middle, Runs root.source root.target files middle ∧ Runs root.source root.target middle files' ∧
    middle.list (root.source.joinAll names) = .ok listed

theorem ListedBetween.mono {root : Job} {files₁ files₂ files₃ files₄ : FileSystem} {names listed : List FileName}
    (h : ListedBetween root files₂ files₃ names listed) (hbefore : Runs root.source root.target files₁ files₂)
    (hafter : Runs root.source root.target files₃ files₄) : ListedBetween root files₁ files₄ names listed := by
  obtain ⟨middle, hrun, hrun', hlist⟩ := h
  exact ⟨middle, hbefore.trans hrun, hrun'.trans hafter, hlist⟩

/-- A listed entry cannot be handled. -/
def Stuck (root : Job) (files : FileSystem) (progress : Progress) (failure : Failure) : Prop :=
  ∃ names name listed, ListedBetween root files progress.files names listed ∧ name ∈ listed ∧
    Provided progress.files (root.along names).target ∧
    handleEntry (root.along names) name progress = .fail failure progress

/-- The entries that were handled are all those below some directories: no entry twice, and of each directory what was
listed in it. -/
structure Complete (root : Job) (heads trace : List (List FileName)) (files files' : FileSystem) : Prop where
  nodup : trace.Nodup
  below : ∀ names ∈ trace, ∃ head ∈ heads, ∃ rest, rest ≠ [] ∧ names = head ++ rest
  listed : ∀ names, names ∈ heads ∨ names ∈ trace ∧ files'.isDirectory (root.source.joinAll names) = true →
    ∃ listed, ListedBetween root files files' names listed ∧ ∀ name, names ++ [name] ∈ trace ↔ name ∈ listed

section Complete

variable {root : Job} {heads heads' trace trace' : List (List FileName)} {names : List FileName}
  {files middle final : FileSystem}

theorem Complete.nil : Complete root [] [] files files := by
  refine ⟨.nil, ?_, ?_⟩
  · intro names hnames
    cases hnames
  · rintro names (hnames | ⟨hnames, -⟩)
    · cases hnames
    · cases hnames

theorem Complete.isPrefix (h : Complete root heads trace files final) (hmem : names ∈ heads ∨ names ∈ trace) :
    ∃ head ∈ heads, head <+: names := by
  rcases hmem with hhead | htrace
  · exact ⟨names, hhead, List.prefix_rfl⟩
  · obtain ⟨head, hhead, rest, -, rfl⟩ := h.below names htrace
    exact ⟨head, hhead, List.prefix_append head rest⟩

/-- Directories of which none is in another are gone through independently. -/
theorem Complete.append (h : Complete root heads trace files middle) (h' : Complete root heads' trace' middle final)
    (hrun : Runs root.source root.target files middle) (hrun' : Runs root.source root.target middle final)
    (hleads : ∀ names ∈ trace, middle.Leads (root.source.joinAll names))
    (hapart : ∀ head ∈ heads, ∀ head' ∈ heads', ¬ head <+: head' ∧ ¬ head' <+: head) :
    Complete root (heads ++ heads') (trace ++ trace') files final := by
  have hdisjoint : ∀ head ∈ heads, ∀ head' ∈ heads', ∀ names, head <+: names → head' <+: names → False := by
    intro head hhead head' hhead' names hbegins hbegins'
    obtain ⟨hnot, hnot'⟩ := hapart head hhead head' hhead'
    exact (List.prefix_or_prefix_of_prefix hbegins hbegins').elim hnot hnot'
  refine ⟨?_, ?_, ?_⟩
  · refine List.nodup_append.2 ⟨h.nodup, h'.nodup, ?_⟩
    rintro names hnames _ hnames' rfl
    obtain ⟨head, hhead, hbegins⟩ := h.isPrefix (.inr hnames)
    obtain ⟨head', hhead', hbegins'⟩ := h'.isPrefix (.inr hnames')
    exact hdisjoint head hhead head' hhead' names hbegins hbegins'
  · intro names hnames
    rcases List.mem_append.1 hnames with hnames | hnames
    · obtain ⟨head, hhead, hbelow⟩ := h.below names hnames
      exact ⟨head, List.mem_append_left _ hhead, hbelow⟩
    · obtain ⟨head, hhead, hbelow⟩ := h'.below names hnames
      exact ⟨head, List.mem_append_right _ hhead, hbelow⟩
  · intro names hnames
    have hcases : (names ∈ heads ∨ names ∈ trace ∧ middle.isDirectory (root.source.joinAll names) = true) ∨
        (names ∈ heads' ∨ names ∈ trace' ∧ final.isDirectory (root.source.joinAll names) = true) := by
      rw [List.mem_append, List.mem_append] at hnames
      rcases hnames with (hhead | hhead) | ⟨htrace | htrace, hdirectory⟩
      · exact .inl (.inl hhead)
      · exact .inr (.inl hhead)
      · rw [isDirectory_eq hrun'.grows (hleads names htrace)] at hdirectory
        exact .inl (.inr ⟨htrace, hdirectory⟩)
      · exact .inr (.inr ⟨htrace, hdirectory⟩)
    rcases hcases with hfirst | hsecond
    · obtain ⟨listed, hlisted, hiff⟩ := h.listed names hfirst
      refine ⟨listed, hlisted.mono .refl hrun', fun name => ?_⟩
      obtain ⟨head, hhead, hbegins⟩ := h.isPrefix (hfirst.imp_right And.left)
      have hnot : names ++ [name] ∉ trace' := by
        intro hmem
        obtain ⟨head', hhead', hbegins'⟩ := h'.isPrefix (.inr hmem)
        exact hdisjoint head hhead head' hhead' _ (hbegins.trans (List.prefix_append _ _)) hbegins'
      rw [List.mem_append, hiff name, or_iff_left hnot]
    · obtain ⟨listed, hlisted, hiff⟩ := h'.listed names hsecond
      refine ⟨listed, hlisted.mono hrun .refl, fun name => ?_⟩
      obtain ⟨head', hhead', hbegins'⟩ := h'.isPrefix (hsecond.imp_right And.left)
      have hnot : names ++ [name] ∉ trace := by
        intro hmem
        obtain ⟨head, hhead, hbegins⟩ := h.isPrefix (.inr hmem)
        exact hdisjoint head hhead head' hhead' _ hbegins (hbegins'.trans (List.prefix_append _ _))
      rw [List.mem_append, hiff name, or_iff_right hnot]

theorem Complete.length_lt {depth : Nat} (h : Complete root heads trace files final)
    (hheads : ∀ head ∈ heads, depth ≤ head.length) (hmem : names ∈ trace) : depth < names.length := by
  obtain ⟨head, hhead, rest, hrest, rfl⟩ := h.below names hmem
  have hdepth := hheads head hhead
  have hpos := List.length_pos_iff.2 hrest
  rw [List.length_append]
  omega

theorem mem_siblings_iff {name : FileName} {listed : List FileName} :
    names ++ [name] ∈ listed.map (fun name => names ++ [name]) ↔ name ∈ listed := by
  simp

theorem length_of_sibling {entry : List FileName} {listed : List FileName}
    (h : entry ∈ listed.map (fun name => names ++ [name])) : entry.length = names.length + 1 := by
  obtain ⟨name, -, rfl⟩ := List.mem_map.1 h
  simp

theorem nodup_siblings {listed : List FileName} (h : listed.Nodup) : (listed.map fun name => names ++ [name]).Nodup :=
  List.pairwise_map.2 (h.imp fun hne heq => hne (List.singleton_inj.1 (List.append_cancel_left heq)))

/-- A directory is gone through by handling its entries and then going through the directories among them. The entries of one
directory are told from what is deeper by their length. -/
theorem Complete.level {all listed : List FileName} (hall : files.list (root.source.joinAll names) = .ok all)
    (hperm : listed.Perm all)
    (h : Complete root heads trace middle final)
    (hheads : ∀ head, head ∈ heads ↔
      head ∈ listed.map (fun name => names ++ [name]) ∧ middle.isDirectory (root.source.joinAll head) = true)
    (hrun : Runs root.source root.target files middle) (hrun' : Runs root.source root.target middle final)
    (hleads : ∀ head ∈ listed.map (fun name => names ++ [name]), middle.Leads (root.source.joinAll head)) :
    Complete root [names] (listed.map (fun name => names ++ [name]) ++ trace) files final := by
  have hheight : ∀ head ∈ heads, head.length = names.length + 1 := fun head hhead =>
    length_of_sibling ((hheads head).1 hhead).1
  have hdeep : ∀ entry ∈ trace, names.length + 1 < entry.length := fun entry hentry =>
    h.length_lt (fun head hhead => Nat.le_of_eq (hheight head hhead).symm) hentry
  refine ⟨?_, ?_, ?_⟩
  · refine List.nodup_append.2 ⟨nodup_siblings (hperm.nodup_iff.2 (nodup_of_list hall)), h.nodup, ?_⟩
    rintro entry hentry _ hentry' rfl
    have hlength := length_of_sibling hentry
    have hlength' := hdeep entry hentry'
    omega
  · intro entry hentry
    refine ⟨names, List.mem_singleton_self names, ?_⟩
    rcases List.mem_append.1 hentry with hentry | hentry
    · obtain ⟨name, -, rfl⟩ := List.mem_map.1 hentry
      exact ⟨[name], by simp, rfl⟩
    · obtain ⟨head, hhead, rest, -, rfl⟩ := h.below entry hentry
      obtain ⟨name, -, rfl⟩ := List.mem_map.1 ((hheads head).1 hhead).1
      exact ⟨name :: rest, by simp, by simp⟩
  · intro entry hentry
    have hcases : entry = names ∨ entry ∈ heads ∨
        entry ∈ trace ∧ final.isDirectory (root.source.joinAll entry) = true := by
      rw [List.mem_singleton, List.mem_append] at hentry
      rcases hentry with heq | ⟨hentry | hentry, hdirectory⟩
      · exact .inl heq
      · rw [isDirectory_eq hrun'.grows (hleads entry hentry)] at hdirectory
        exact .inr (.inl ((hheads entry).2 ⟨hentry, hdirectory⟩))
      · exact .inr (.inr ⟨hentry, hdirectory⟩)
    rcases hcases with rfl | hcases
    · refine ⟨all, ⟨files, .refl, hrun.trans hrun', hall⟩, fun name => ?_⟩
      have hnot : entry ++ [name] ∉ trace := by
        intro hmem
        have hlength := hdeep _ hmem
        simp at hlength
      rw [List.mem_append, or_iff_left hnot, mem_siblings_iff, hperm.mem_iff]
    · obtain ⟨listed', hlisted', hiff⟩ := h.listed entry hcases
      refine ⟨listed', hlisted'.mono hrun .refl, fun name => ?_⟩
      have hlength : names.length + 1 ≤ entry.length := by
        rcases hcases with hhead | ⟨htrace, -⟩
        · exact Nat.le_of_eq (hheight entry hhead).symm
        · exact Nat.le_of_lt (hdeep entry htrace)
      have hnot : entry ++ [name] ∉ listed.map (fun name => names ++ [name]) := by
        intro hmem
        have hlength' := length_of_sibling hmem
        rw [List.length_append, List.length_singleton] at hlength'
        omega
      rw [List.mem_append, hiff name, or_iff_right hnot]

/-- Everything of a tree is handled if each of its directories lists what the tree has in it. The induction is on the names,
the last one first. -/
theorem Complete.mem (h : Complete root [[]] trace files final) (tree : List FileName → Prop)
    (hfront : ∀ front name, tree (front ++ [name]) → front ≠ [] → tree front)
    (hdirectory : ∀ front name, tree (front ++ [name]) → front ∈ trace → final.isDirectory (root.source.joinAll front) = true)
    (hlisted : ∀ front name middle listed, tree (front ++ [name]) → Runs root.source root.target files middle →
      middle.list (root.source.joinAll front) = .ok listed → name ∈ listed)
    (hne : names ≠ []) (hnames : tree names) : names ∈ trace := by
  induction hlength : names.length generalizing names with
  | zero => exact absurd (List.length_eq_zero_iff.1 hlength) hne
  | succ length ih =>
    obtain ⟨front, name, rfl⟩ := (List.eq_nil_or_concat names).resolve_left hne
    rw [List.concat_eq_append] at hnames hlength ⊢
    have hhandled : front ∈ [[]] ∨ front ∈ trace ∧ final.isDirectory (root.source.joinAll front) = true := by
      by_cases hnil : front = []
      · exact .inl (List.mem_singleton.2 hnil)
      · have hlength' : front.length = length := by simpa using hlength
        have hmem := ih hnil (hfront front name hnames hnil) hlength'
        exact .inr ⟨hmem, hdirectory front name hnames hmem⟩
    obtain ⟨listed, ⟨middle, hrun, -, hlist⟩, hiff⟩ := h.listed front hhandled
    exact (hiff name).2 (hlisted front name middle listed hnames hrun hlist)

end Complete

/-- A part of a deployment handles entries until it is done, or until one fails. -/
inductive Course {α : Type} (root : Job) (files : FileSystem) (start : Progress)
    (done : List (List FileName) → α → Progress → Prop) : Attempt α → Prop where
  | done {trace : List (List FileName)} {value : α} {progress : Progress} (hhandles : Handles root trace start progress)
      (hdone : done trace value progress) : Course root files start done (.ok value progress)
  | stuck {trace : List (List FileName)} {failure : Failure} {progress : Progress}
      (hhandles : Handles root trace start progress) (hstuck : Stuck root files progress failure) :
      Course root files start done (.fail failure progress)

section Course

variable {α β : Type} {root : Job} {files : FileSystem} {start : Progress}

/-- What comes after some entries were handled. -/
theorem Course.after {done : List (List FileName) → α → Progress → Prop} {trace : List (List FileName)} {middle : Progress}
    {attempt : Attempt α} (h : Course root files middle (fun trace' => done (trace ++ trace')) attempt)
    (hhandles : Handles root trace start middle) : Course root files start done attempt := by
  cases h with
  | done hhandles' hdone => exact .done (hhandles.append hhandles') hdone
  | stuck hhandles' hstuck => exact .stuck (hhandles.append hhandles') hstuck

theorem Course.andThen {done : List (List FileName) → α → Progress → Prop}
    {done' : List (List FileName) → β → Progress → Prop} {attempt : Attempt α} {next : α → Progress → Attempt β}
    (h : Course root files start done attempt)
    (hnext : ∀ trace value middle, Handles root trace start middle → done trace value middle →
      Course root files middle (fun trace' => done' (trace ++ trace')) (next value middle)) :
    Course root files start done' (attempt.andThen next) := by
  cases h with
  | stuck hhandles hstuck => exact .stuck hhandles hstuck
  | @done trace value middle hhandles hdone =>
    rw [Attempt.ok_andThen]
    exact (hnext trace value middle hhandles hdone).after hhandles

theorem Course.mono {done done' : List (List FileName) → α → Progress → Prop} {attempt : Attempt α}
    (h : Course root files start done attempt)
    (hdone : ∀ trace value progress, Handles root trace start progress → done trace value progress →
      done' trace value progress) : Course root files start done' attempt := by
  cases h with
  | stuck hhandles hstuck => exact .stuck hhandles hstuck
  | done hhandles h => exact .done hhandles (hdone _ _ _ hhandles h)

/-- What fails later fails after an earlier beginning, too. -/
theorem Course.before {done : List (List FileName) → α → Progress → Prop} {attempt : Attempt α} {files' : FileSystem}
    (h : Course root files' start done attempt) (hrun : Runs root.source root.target files files') :
    Course root files start done attempt := by
  cases h with
  | done hhandles h => exact .done hhandles h
  | stuck hhandles hstuck =>
    obtain ⟨names, name, listed, hlisted, hname, hprovided, hfail⟩ := hstuck
    exact .stuck hhandles ⟨names, name, listed, hlisted.mono hrun .refl, hname, hprovided, hfail⟩

variable {names : List FileName}

/-- The entries of a directory: all that were listed are handled, and the directories among them remain. The induction is
on the names; which of them are directories cannot change in the course. -/
theorem handleEntries_course {all listed : List FileName} (hall : files.list (root.source.joinAll names) = .ok all)
    (hsub : ∀ name ∈ listed, name ∈ all) (hrun : Runs root.source root.target files start.files)
    (hprovided : Provided start.files (root.along names).target) :
    Course root files start (fun trace inners progress => trace = listed.map (fun name => names ++ [name]) ∧
        inners = (trace.filter fun entry => progress.files.isDirectory (root.source.joinAll entry)).map root.along)
      (handleEntries (root.along names) listed start) := by
  induction listed generalizing start with
  | nil => exact .done (.nil start) ⟨rfl, rfl⟩
  | cons name listed ih =>
    rw [handleEntries]
    rcases (handleEntry (root.along names) name start).ok_or_fail with ⟨inner, middle, hentry⟩ | ⟨failure, middle, hentry⟩
    · have hstep := handleEntry_runs hprovided hentry
      obtain ⟨hleads, hinner⟩ := handleEntry_ok hentry
      rw [Job.inner_along] at hleads hinner
      have hrest := ih (fun name' hname' => hsub name' (.tail _ hname')) (hrun.trans hstep) (hprovided.grows hstep.grows)
      rw [hentry, Attempt.ok_andThen]
      refine (hrest.andThen fun trace inners progress hhandles h => ?_).after (.single hprovided hentry)
      obtain ⟨rfl, rfl⟩ := h
      have hsame := isDirectory_eq (hstep.grows.trans hhandles.runs.grows) hleads
      refine .done (.nil progress) ⟨by simp, ?_⟩
      rw [List.append_nil, List.singleton_append, List.filter_cons]
      have hdirectory : progress.files.isDirectory (root.source.joinAll (names ++ [name])) =
          start.files.isDirectory (root.along (names ++ [name])).source := hsame
      rw [hinner, hdirectory]
      split <;> rfl
    · obtain rfl := handleEntry_fail hprovided hentry
      rw [hentry, Attempt.fail_andThen]
      exact .stuck (.nil middle) ⟨names, name, all, ⟨files, .refl, hrun, hall⟩, hsub name (.head _), hprovided, hentry⟩

/-- A directory that can be listed: all its entries are handled. -/
theorem handleDirectory_course {order : ListingOrder} (hrun : Runs root.source root.target files start.files)
    (hprovided : Provided start.files (root.along names).target)
    (hdirectory : start.files.isDirectory (root.source.joinAll names) = true) :
    Course root files start (fun trace inners progress => ∃ all listed : List FileName,
        start.files.list (root.source.joinAll names) = .ok all ∧ listed.Perm all ∧
          trace = listed.map (fun name => names ++ [name]) ∧
          inners = (trace.filter fun entry => progress.files.isDirectory (root.source.joinAll entry)).map root.along)
      (handleDirectory order (root.along names) start) := by
  obtain ⟨all, hlist⟩ := list_of_isDirectory hdirectory
  have hsource : start.files.list (root.along names).source = .ok all := hlist
  have hperm := order.perm (root.along names).source all
  unfold handleDirectory
  rw [hsource]
  have hcourse := handleEntries_course hlist (fun name hname => hperm.mem_iff.1 hname) .refl hprovided
  refine (hcourse.mono fun trace inners progress _ h => ?_).before hrun
  exact ⟨all, _, hlist, hperm, h.1, h.2⟩

/-- Directories of which none is in another are gone through one after the other. -/
theorem forEach_course {act : Job → Progress → Attempt Unit} {heads : List (List FileName)}
    (hact : ∀ head ∈ heads, ∀ progress, Runs root.source root.target start.files progress.files →
      Course root files progress (fun trace _ progress' => Complete root [head] trace progress.files progress'.files)
        (act (root.along head) progress))
    (hapart : heads.Pairwise fun head head' => ¬ head <+: head' ∧ ¬ head' <+: head) :
    Course root files start (fun trace _ progress => Complete root heads trace start.files progress.files)
      (Attempt.forEach act (heads.map root.along) start) := by
  induction heads generalizing start with
  | nil => exact .done (.nil start) .nil
  | cons head heads ih =>
    obtain ⟨hhead, hapart⟩ := List.pairwise_cons.1 hapart
    rw [List.map_cons, Attempt.forEach]
    refine (hact head (.head _) start .refl).andThen fun trace _ middle hhandles hcomplete => ?_
    have hrest := @ih middle
      (fun head' hhead' progress hrun => hact head' (.tail _ hhead') progress (hhandles.runs.trans hrun)) hapart
    refine hrest.mono fun trace' _ progress hhandles' hcomplete' => ?_
    refine hcomplete.append hcomplete' hhandles.runs hhandles'.runs (fun names hnames => hhandles.leads hnames) ?_
    intro head' hhead' head'' hhead''
    rw [List.mem_singleton.1 hhead']
    exact hhead head'' hhead''

/-- Entries of one directory are not in one another. -/
theorem apart_of_siblings {listed : List FileName} (h : listed.Nodup) :
    (listed.map fun name => names ++ [name]).Pairwise fun head head' => ¬ head <+: head' ∧ ¬ head' <+: head := by
  refine List.pairwise_map.2 (h.imp fun {name name'} hne => ⟨fun hbegins => hne ?_, fun hbegins => hne ?_⟩)
  · exact List.singleton_inj.1 (List.append_cancel_left (hbegins.eq_of_length (by simp)))
  · exact (List.singleton_inj.1 (List.append_cancel_left (hbegins.eq_of_length (by simp)))).symm

/-- A directory of the source is gone through with everything below it. The room is enough, because the system accepts no
path that is as long as its limit; the induction is on the room. -/
theorem descend_course {order : ListingOrder} (room : Nat)
    (hroom : pathLimit ≤ room + (root.source.joinAll names).spelling.length)
    (hrun : Runs root.source root.target files start.files)
    (hprovided : Provided start.files (root.along names).target)
    (hdirectory : start.files.isDirectory (root.source.joinAll names) = true) :
    Course root files start (fun trace _ progress => Complete root [names] trace start.files progress.files)
      (descend order room (root.along names) start) := by
  induction room generalizing names start with
  | zero =>
    have hlength := length_of_leads (leads_of_isDirectory hdirectory)
    omega
  | succ room ih =>
    unfold descend
    refine (handleDirectory_course hrun hprovided hdirectory).andThen fun trace inners middle hhandles h => ?_
    obtain ⟨all, listed, hlist, hperm, rfl, rfl⟩ := h
    rw [← List.map_reverse]
    refine (forEach_course ?_ ?_).mono fun trace' _ progress hhandles' hcomplete => ?_
    · intro head hhead progress hrun'
      obtain ⟨htrace, hisDirectory⟩ := List.mem_filter.1 (List.mem_reverse.1 hhead)
      obtain ⟨name, -, rfl⟩ := List.mem_map.1 htrace
      have hlonger : (root.source.joinAll names).spelling.length <
          (root.source.joinAll (names ++ [name])).spelling.length := by
        rw [Path.joinAll_concat]
        exact Path.length_lt_join _ name
      refine ih ?_ ((hrun.trans hhandles.runs).trans hrun') ?_ ?_
      · omega
      · exact (hhandles.provided htrace hisDirectory).grows hrun'.grows
      · exact isDirectory_grows hisDirectory hrun'.grows
    · refine List.pairwise_reverse.2 (((apart_of_siblings ?_).filter _).imp And.symm)
      exact hperm.nodup_iff.2 (nodup_of_list hlist)
    · refine Complete.level hlist hperm hcomplete ?_ hhandles.runs hhandles'.runs fun head hhead => hhandles.leads hhead
      intro head
      rw [List.mem_reverse, List.mem_filter]

end Course

/-! ## The whole deployment -/

variable {files : FileSystem} {order : ListingOrder} {source target : Path}

/-- The beginning of a deployment, once its target is provided. -/
def begun (files : FileSystem) (target : Path) : Progress :=
  ⟨files.withDirectory target, ⟨0, missingCount files target target.pieces.ancestors⟩⟩

/-- How a deployment goes. -/
inductive Goes (files : FileSystem) (source target : Path) : Outcome → Prop where
  /-- The source is no directory, and nothing has changed. -/
  | noSource {failure : Failure} (hsource : files.isDirectory source = false) : Goes files source target ⟨.error failure, files⟩
  /-- The target cannot be made, at least not to its end. -/
  | noTarget {failure : Failure} (hsource : files.isDirectory source = true)
      (hprovide : provideDirectory target ⟨files, ⟨0, 0⟩⟩ = .fail failure ⟨files.withDirectory target, ⟨0, 0⟩⟩) :
      Goes files source target ⟨.error failure, files.withDirectory target⟩
  /-- Entries are handled until one fails. -/
  | stuck {failure : Failure} {trace : List (List FileName)} {progress : Progress}
      (hsource : files.isDirectory source = true)
      (hprovide : provideDirectory target ⟨files, ⟨0, 0⟩⟩ = .ok () (begun files target))
      (hhandles : Handles ⟨source, target⟩ trace (begun files target) progress)
      (hstuck : Stuck ⟨source, target⟩ (files.withDirectory target) progress failure) :
      Goes files source target ⟨.error failure, progress.files⟩
  /-- All entries are handled. -/
  | done {trace : List (List FileName)} {progress : Progress} (hsource : files.isDirectory source = true)
      (hprovide : provideDirectory target ⟨files, ⟨0, 0⟩⟩ = .ok () (begun files target))
      (hhandles : Handles ⟨source, target⟩ trace (begun files target) progress)
      (hcomplete : Complete ⟨source, target⟩ [[]] trace (files.withDirectory target) progress.files) :
      Goes files source target ⟨.ok progress.report, progress.files⟩

theorem provideDirectory_cases (path : Path) (files : FileSystem) :
    (∃ failure, provideDirectory path ⟨files, ⟨0, 0⟩⟩ = .fail failure ⟨files.withDirectory path, ⟨0, 0⟩⟩) ∨
      provideDirectory path ⟨files, ⟨0, 0⟩⟩ = .ok () (begun files path) := by
  have hmeets := provideDirectory_meets path ⟨files, ⟨0, 0⟩⟩
  unfold provideDirectory at hmeets ⊢
  unfold begun
  by_cases hzero : missingCount files path path.pieces.ancestors = 0
  · simp only [hzero, if_true] at hmeets ⊢
    have hsame : files = files.withDirectory path := hmeets.always
    rw [← hsame]
    exact .inr rfl
  · simp only [hzero, if_false]
    unfold withDirectory
    rcases hmake : files.makeDirectories path path.pieces.ancestors with ⟨error | _, made⟩
    · exact .inl ⟨_, rfl⟩
    · refine .inr ?_
      simp only [Nat.zero_add]

/-- A deployment that succeeds has handled all entries. -/
theorem Goes.done_of_ok {outcome : Outcome} {report : Report} (h : Goes files source target outcome)
    (hok : outcome.result = .ok report) :
    ∃ trace progress, files.isDirectory source = true ∧
      provideDirectory target ⟨files, ⟨0, 0⟩⟩ = .ok () (begun files target) ∧
      Handles ⟨source, target⟩ trace (begun files target) progress ∧
      Complete ⟨source, target⟩ [[]] trace (files.withDirectory target) progress.files ∧
      progress.report = report ∧ outcome.files = progress.files := by
  cases h with
  | noSource _ => cases hok
  | noTarget _ _ => cases hok
  | stuck _ _ _ _ => cases hok
  | done hsource hprovide hhandles hcomplete =>
    cases hok
    exact ⟨_, _, hsource, hprovide, hhandles, hcomplete, rfl, rfl⟩

/-- Whatever a deployment of a directory comes to, it begins with making the target. -/
theorem Goes.runs {outcome : Outcome} (h : Goes files source target outcome) (hsource : files.isDirectory source = true) :
    Runs source target (files.withDirectory target) outcome.files := by
  cases h with
  | noSource hnot =>
    rw [hsource] at hnot
    cases hnot
  | noTarget _ _ => exact .refl
  | stuck _ _ hhandles _ => exact hhandles.runs
  | done _ _ hhandles _ => exact hhandles.runs

/-- Every deployment goes in one of the four ways. -/
theorem deploy_goes (files : FileSystem) (order : ListingOrder) (source target : Path) :
    Goes files source target (files.deploy order source target) := by
  unfold FileSystem.deploy start
  by_cases hsource : files.isDirectory source = true
  · obtain ⟨mode, hstat⟩ := isDirectory_iff.1 hsource
    rw [hstat]
    have hmeets := provideDirectory_meets target ⟨files, ⟨0, 0⟩⟩
    rcases provideDirectory_cases target files with ⟨failure, hprovide⟩ | hprovide
    · rw [hprovide]
      exact .noTarget hsource hprovide
    · rw [hprovide] at hmeets ⊢
      have hprovided : Provided (begun files target).files target := hmeets.success () rfl
      have hdirectory := isDirectory_grows hsource (withDirectory_madeAt files target).grows
      have hroom : pathLimit ≤ pathLimit - source.spelling.length + source.spelling.length := by omega
      have hcourse : Course ⟨source, target⟩ (files.withDirectory target) (begun files target)
          (fun trace _ progress => Complete ⟨source, target⟩ [[]] trace (files.withDirectory target) progress.files)
          (descend order (pathLimit - source.spelling.length) ⟨source, target⟩ (begun files target)) :=
        descend_course _ hroom .refl hprovided hdirectory
      simp only [Attempt.ok_andThen]
      generalize descend order (pathLimit - source.spelling.length) ⟨source, target⟩ (begun files target) = attempt at hcourse
      cases hcourse with
      | done hhandles hcomplete => exact .done hsource hprovide hhandles hcomplete
      | stuck hhandles hstuck => exact .stuck hsource hprovide hhandles hstuck
  · have hnot : files.isDirectory source = false := Bool.eq_false_iff.2 hsource
    cases hstat : files.stat source with
    | error error => exact .noSource hnot
    | ok entry =>
      cases entry with
      | directory mode => exact absurd (isDirectory_iff.2 ⟨mode, hstat⟩) hsource
      | _ => exact .noSource hnot

end Deployment

end ConsoleKit
