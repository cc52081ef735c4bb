import ConsoleKit.Proofs.Deployment.Handling
import ConsoleKit.Proofs.Deployment.Mirroring
import ConsoleKit.Proofs.Files.Entering

/-!
# What is in the way of an entry

Whether an entry of the source can be handled does not depend on what was handled before it: it can if nothing was in its
way once the missing part of the target was made (`Clear`). This is so if the deployment comes to the entry at all
(`handleEntry_of_clear`), and only then (`clear_of_handleEntry`).
-/

namespace ConsoleKit

open FileSystem

namespace FileSystem

variable {files files' : FileSystem} {path : Path} {place : Location} {entry : Entry}

/-- A place that is a directory, after more was done, was one before, if anything was there. -/
theorem Grows.directory_of (h : Grows files files') {mode : Mode} {entries : List (FileName × Node)} {node : Node}
    (hnode : files.node? place = some node) (hnode' : files'.node? place = some (.directory mode entries)) :
    ∃ mode entries, node = .directory mode entries := by
  obtain ⟨bare', hbare', hkept⟩ := h.kept place _ (bare?_of_node? hnode)
  rw [bare?_of_node? hnode', Option.some.injEq] at hbare'
  subst hbare'
  generalize hold : node.bare = old at hkept
  cases hkept with
  | same => cases node <;> cases hold; exact ⟨_, _, rfl⟩

end FileSystem

namespace Deployment

variable {files : FileSystem} {order : ListingOrder} {source target : Path} {front : List FileName} {name : FileName}
  {entry : Entry} {progress progress' : Progress}

/-- Nothing is in the way of an entry of the source: the directory of the target for it is a directory if it is there, and
where a file has its place no directory is. -/
structure Clear (made : FileSystem) (target : Path) (front : List FileName) (name : FileName) (entry : Entry) : Prop where
  kind : (∃ mode, entry = .directory mode) ∨ ∃ data, entry = .file data
  accepted : checkPath (target.joinAll (front ++ [name])) = .ok ()
  places : ∃ base, made.find target.directory = .ok base ∧ base.removed = false ∧
    (∀ node, made.node? (front.reverse ++ base.location) = some node → ∃ mode entries, node = .directory mode entries) ∧
    ((∃ data, entry = .file data) → ∀ mode entries,
      made.node? (name :: (front.reverse ++ base.location)) ≠ some (.directory mode entries))

/-- No directory is at the place of a file. -/
theorem Clear.not_directory {made : FileSystem} {data : FileData} {place : Location}
    (h : Clear made target front name (.file data)) (hbelow : made.Below target (front ++ [name]) place) (mode : Mode)
    (entries : List (FileName × Node)) : made.node? place ≠ some (.directory mode entries) := by
  obtain ⟨base, hbase, -, -, hfile⟩ := h.places
  obtain ⟨base', hbase', -, rfl⟩ := hbelow.base
  rw [hbase, Except.ok.injEq] at hbase'
  subst hbase'
  rw [List.reverse_append]
  exact hfile ⟨data, rfl⟩ mode entries

/-- In a directory that can be entered there can be one more. -/
theorem provideDirectory_of_enters {path : Path} {location : Location} {mode : Mode} {entries : List (FileName × Node)}
    (henters : progress.files.Enters path name location mode entries)
    (hlink : ∀ target, entries.lookup name ≠ some (.link target)) :
    ∃ progress', provideDirectory (path.join name) progress = .ok () progress' := by
  by_cases hprovided : Provided progress.files (path.join name)
  · exact ⟨progress, provideDirectory_of_provided hprovided⟩
  cases hlookup : entries.lookup name with
  | some node =>
    have hfind := find_eq_ok_iff.2 (henters.walk_found hlookup fun target heq => hlink target (heq ▸ hlookup))
    exact absurd (.inr ⟨_, hfind⟩) hprovided
  | none =>
    obtain ⟨made, hmake⟩ := makeDirectory_of_entry henters hlookup
    exact ⟨_, provideDirectory_of_makeDirectory hprovided hmake⟩

/-- An entry can be handled if the directory of the target can take it. -/
theorem handleEntry_of_enters {job : Job} {location : Location} {mode : Mode} {entries : List (FileName × Node)}
    (henters : progress.files.Enters job.target name location mode entries)
    (hstat : progress.files.stat (job.inner name).source = .ok entry)
    (hkind : (∃ mode, entry = .directory mode) ∨ ∃ data, entry = .file data)
    (hlink : ∀ target, entries.lookup name ≠ some (.link target))
    (hclear : (∃ data, entry = .file data) → ∀ mode' entries', entries.lookup name ≠ some (.directory mode' entries')) :
    ∃ inner progress', handleEntry job name progress = .ok inner progress' := by
  rcases hkind with ⟨mode', rfl⟩ | ⟨data, rfl⟩
  · rw [handleEntry_directory hstat]
    obtain ⟨progress', hprovide⟩ := provideDirectory_of_enters henters hlink
    have hprovide' : provideDirectory (job.inner name).target progress = .ok () progress' := hprovide
    rw [hprovide']
    exact ⟨_, _, rfl⟩
  · rw [handleEntry_other hstat (by simp)]
    obtain ⟨ref, hreads⟩ := stat_eq_file_iff.1 hstat
    obtain ⟨files', hcopy⟩ := copyFile_of_entry henters hreads fun node hnode =>
      ⟨fun target heq => hlink target (heq ▸ hnode), fun mode' entries' heq => hclear ⟨data, rfl⟩ mode' entries' (heq ▸ hnode)⟩
    have hcopy' : progress.files.copyFile (job.inner name).source (job.inner name).target = .ok files' := hcopy
    unfold copyFile
    rw [hcopy']
    exact ⟨_, _, rfl⟩

section Separated

variable {final : FileSystem}

/-- The directory of the target for an entry is a directory, whatever was done before. -/
theorem node?_around (hplain : (files.withDirectory target).PlainBelow target)
    (hmirrors : Mirrors files source target final) (hclear : Clear (files.withDirectory target) target front name entry)
    (hprovided : Provided final (target.joinAll front))
    (hfront : ∃ mode, files.stat (source.joinAll front) = .ok (.directory mode)) :
    ∃ location mode entries, final.find (target.joinAll front).directory = .ok ⟨location, .directory mode entries, false⟩ ∧
      final.node? location = some (.directory mode entries) ∧
      (files.withDirectory target).Below target (front ++ [name]) (name :: location) := by
  obtain ⟨base, hbase, hlive, haround, -⟩ := hclear.places
  obtain ⟨base', hbase', hbecomes⟩ := find_grows hmirrors.confined.grows hbase
  have hlive' : base'.removed = false := hbecomes.removed_eq.trans hlive
  have hplain' := hmirrors.confined.plainBelow hplain
  have hbelow : (files.withDirectory target).Below target (front ++ [name]) (name :: (front.reverse ++ base.location)) :=
    ⟨by simp, hclear.accepted, base, hbase, hlive, by simp⟩
  -- The target itself may be spelled in any way; what is below it has a place of its own.
  by_cases hne : front = []
  · subst hne
    obtain ⟨mode, entries, hnode⟩ := haround base.node ((find_becomes hbase).node? hlive)
    have hmade := (find_becomes hbase).node? hlive
    rw [hnode] at hmade
    obtain ⟨entries', hnode'⟩ := hmirrors.confined.grows.directory hmade
    have hsame := (find_becomes hbase').node? hlive'
    rw [hbecomes.location_eq, hnode', Option.some.injEq] at hsame
    have hfind : base' = ⟨base.location, .directory mode entries', false⟩ := by
      obtain ⟨location, node, removed⟩ := base'
      cases hlive'
      cases hsame
      rw [← hbecomes.location_eq]
    exact ⟨base.location, mode, entries', hfind ▸ hbase', hnode', hbelow⟩
  · obtain ⟨spot, hfind⟩ := hprovided.resolve_left (by simp [Path.isEmpty_joinAll target hne])
    obtain ⟨place, hbelow', ⟨node, hnode, harrival⟩ | ⟨_, _, _, _, harrival⟩⟩ :=
      below_of_walk hplain'.linkFreeBelow hne (find_eq_ok_iff.1 hfind)
    · cases harrival
      have hfrontBelow := hmirrors.confined.below hbelow'
      have hplace : place = front.reverse ++ base.location := by
        obtain ⟨base₁, hbase₁, -, hplace⟩ := hfrontBelow.base
        rw [hbase, Except.ok.injEq] at hbase₁
        rw [hbase₁, hplace]
      subst hplace
      obtain ⟨mode, hfront⟩ := hfront
      obtain ⟨mode, entries, rfl⟩ := hmirrors.node_of_directory hfrontBelow hfront haround hnode
      rw [← directory_of_find hfind] at hfind
      exact ⟨_, mode, entries, hfind, hnode, hbelow⟩
    · cases harrival

/-- An entry with nothing in its way is handled without a failure, whatever was done before. -/
theorem handleEntry_of_clear (hplain : (files.withDirectory target).PlainBelow target)
    (hmirrors : Mirrors files source target progress.files)
    (hclear : Clear (files.withDirectory target) target front name entry)
    (hprovided : Provided progress.files (target.joinAll front))
    (hfront : ∃ mode, files.stat (source.joinAll front) = .ok (.directory mode))
    (hstat : files.stat (source.joinAll (front ++ [name])) = .ok entry) :
    ∃ inner progress', handleEntry ((Job.mk source target).along front) name progress = .ok inner progress' := by
  obtain ⟨location, mode, entries, hfind, hnode, hbelow⟩ := node?_around hplain hmirrors hclear hprovided hfront
  have hgrows := (withDirectory_madeAt files target).grows.trans hmirrors.confined.grows
  have hplain' := hmirrors.confined.plainBelow hplain
  have haccepted := hclear.accepted
  rw [Path.joinAll_concat] at haccepted
  have hlookup : ∀ node, entries.lookup name = some node → progress.files.node? (name :: location) = some node := by
    intro node hlookup
    rw [node?_cons, hnode]
    exact hlookup
  obtain ⟨entry', hstat', hkept⟩ := hgrows.stat hstat
  rw [Path.joinAll_concat] at hstat'
  refine handleEntry_of_enters ⟨hfind, haccepted⟩ hstat' ?_ ?_ ?_
  · rcases hclear.kind with ⟨mode', rfl⟩ | ⟨data, rfl⟩
    · cases hkept
      exact .inl ⟨mode', rfl⟩
    · cases hkept <;> exact .inr ⟨_, rfl⟩
  · intro path hlink
    exact ((hbelow.grows hmirrors.confined.grows).plain hplain' (hlookup _ hlink)).1 path rfl
  · rintro ⟨data, rfl⟩ mode' entries' hdirectory
    obtain ⟨data₀, rfl⟩ : ∃ data₀, entry = .file data₀ := by
      cases hkept <;> exact ⟨_, rfl⟩
    have hnew := hlookup _ hdirectory
    cases hmade : (files.withDirectory target).node? (name :: location) with
    | some old =>
      obtain ⟨mode₀, entries₀, rfl⟩ := hmirrors.confined.grows.directory_of hmade hnew
      exact hclear.not_directory hbelow mode₀ entries₀ hmade
    | none =>
      have hbare : progress.files.bare? (name :: location) = some (.directory mode' []) := bare?_of_node? hnew
      rcases hmirrors.place _ _ hbelow (leads_of_stat hstat) with hsame | hmirrored
      · rw [hbare, bare?_eq_none_iff.2 hmade] at hsame
        cases hsame
      · have hcopy := (hmirrored.of_file hstat).2
        rw [hbare] at hcopy
        cases hcopy

/-- An entry that was handled had nothing in its way. -/
theorem clear_of_handleEntry {inner : Option Job} (hplain : (files.withDirectory target).PlainBelow target)
    (hconfined : Confined source target (files.withDirectory target) progress.files)
    (hprovided : Provided progress.files (target.joinAll front))
    (hstat : files.stat (source.joinAll (front ++ [name])) = .ok entry)
    (h : handleEntry ((Job.mk source target).along front) name progress = .ok inner progress') :
    Clear (files.withDirectory target) target front name entry := by
  have hplain' := hconfined.plainBelow hplain
  have hgrows := (withDirectory_madeAt files target).grows.trans hconfined.grows
  obtain ⟨place, hbelow, heffect⟩ := handleEntry_effect hplain' hprovided h
  have hmade := hconfined.below hbelow
  obtain ⟨base, hbase, hlive, hplace⟩ := hmade.base
  obtain ⟨entry', hstat', hkept⟩ := hgrows.stat hstat
  have hrun := handleEntry_runs hprovided h
  -- The entry has come to a directory, which was one from the beginning if it was there.
  have haround : ∀ node, (files.withDirectory target).node? (front.reverse ++ base.location) = some node →
      ∃ mode entries, node = .directory mode entries := by
    intro node hnode
    obtain ⟨new, hnew⟩ := Option.ne_none_iff_exists'.1 fun hnone => heffect.bare?_ne_none (bare?_eq_none_iff.2 hnone)
    rw [hplace, List.reverse_append, List.reverse_singleton, List.append_assoc] at hnew
    obtain ⟨mode, entries, hdirectory, -⟩ := node?_parent hnew
    exact (hconfined.grows.trans hrun.grows).directory_of hnode hdirectory
  rcases heffect.kind with ⟨mode, hmode⟩ | ⟨⟨data, hdata⟩, hnot⟩
  · rw [hmode, Except.ok.injEq] at hstat'
    subst hstat'
    cases hkept
    refine ⟨.inl ⟨mode, rfl⟩, hbelow.accepted, base, hbase, hlive, haround, ?_⟩
    rintro ⟨data, hdata⟩
    cases hdata
  · obtain ⟨data₀, rfl⟩ : ∃ data₀, entry = .file data₀ := by
      rw [hdata, Except.ok.injEq] at hstat'
      subst hstat'
      cases hkept <;> exact ⟨_, rfl⟩
    refine ⟨.inr ⟨data₀, rfl⟩, hbelow.accepted, base, hbase, hlive, haround, ?_⟩
    intro _ mode entries hdirectory
    obtain ⟨entries', hdirectory'⟩ := hconfined.grows.directory hdirectory
    refine hnot mode ?_
    rw [hplace, List.reverse_append, List.reverse_singleton, List.append_assoc]
    exact bare?_of_node? hdirectory'

end Separated

end Deployment

end ConsoleKit
