import ConsoleKit.Proofs.Deployment.Finishing
import Mathlib

/-!
# The directories of a deployed tree

For a directory of the source something has to be at its place in the target, and that counts as provided whatever it is.
That it is a directory turns out only when the first entry is put into it (`isDirectory_of_handleEntry`). A deployment
that succeeds therefore leaves a directory for every directory of the source that has an entry; for an empty one it
leaves what it finds there, a directory or not (`deploy_directories`).
-/

namespace ConsoleKit

open FileSystem

namespace FileSystem

variable {files files' : FileSystem} {path : Path}

/-- What is listed stays listed. -/
theorem mem_list_grows {name : FileName} {listed listed' : List FileName} (hgrows : files.Grows files')
    (hlist : files.list path = .ok listed) (hlist' : files'.list path = .ok listed') (hmem : name ∈ listed) :
    name ∈ listed' := by
  obtain ⟨spot, mode, entries, hfind, -, -⟩ := list_inv hlist
  obtain ⟨spot', hfind', hbecomes⟩ := find_grows hgrows hfind
  obtain ⟨hlive, node, hnode⟩ := (mem_list_iff hlist hfind).1 hmem
  rw [mem_list_iff hlist' hfind', hbecomes.removed_eq, hbecomes.location_eq]
  exact ⟨hlive, hgrows.node? hnode⟩

end FileSystem

namespace Deployment

variable {files files' : FileSystem} {order : ListingOrder} {source target : Path} {names : List FileName}
  {progress progress' : Progress}

/-! ## Where entries can be handled -/

/-- A step is taken inside a directory only. -/
theorem isDirectory_of_step (h : Step source target files files') : files'.isDirectory target.directory = true := by
  have hgrows := h.grows
  cases h with
  | directory hne _ hmake =>
    obtain ⟨vacancy, -, -, -, hfind⟩ := makeDirectory_spec hmake
    exact isDirectory_directory_of_leads hne ⟨_, hfind⟩
  | file hne hcopy =>
    obtain ⟨_, _, destination, -, hdestination, -⟩ := copyFile_inv hcopy
    exact isDirectory_grows (isDirectory_directory_of_destination hne hdestination) hgrows

/-- An entry is handled in a directory only. -/
theorem isDirectory_of_handleEntry {job : Job} {name : FileName} {inner : Option Job}
    (h : handleEntry job name progress = .ok inner progress') :
    progress'.files.isDirectory job.target.directory = true := by
  rcases handleEntry_ok_inv h with ⟨mode, -, -, hprovide⟩ | ⟨entry, -, -, -, hcopy⟩
  · have hmeets := provideDirectory_meets (job.inner name).target progress
    rw [hprovide] at hmeets
    have hprovided : Provided progress'.files (job.target.join name) := hmeets.success () rfl
    have hleads : progress'.files.Leads (job.target.joinAll [name]) := hprovided.resolve_left (by simp)
    exact isDirectory_directory_of_leads (List.cons_ne_nil _ _) hleads
  · have hmeets := copyFile_meets (job.inner name).source (job.inner name).target progress
    rw [hcopy] at hmeets
    have hcall := hmeets.success () rfl
    obtain ⟨_, _, destination, -, hdestination, -⟩ := copyFile_inv hcall
    have hdirectory : progress.files.isDirectory job.target.directory = true :=
      isDirectory_directory_of_destination (List.cons_ne_nil name []) hdestination
    exact isDirectory_grows hdirectory (copyFile_grows hcall)

/-- A path that was provided leads to a directory, unless it was provided before. -/
theorem isDirectory_of_provideDirectory {path : Path} (h : provideDirectory path progress = .ok () progress') :
    Provided progress.files path ∨ progress'.files.isDirectory path = true := by
  by_cases hprovided : Provided progress.files path
  · exact .inl hprovided
  have hzero : missingCount progress.files path path.pieces.ancestors ≠ 0 :=
    fun hzero => hprovided (missingCount_eq_zero.1 hzero)
  unfold provideDirectory at h
  simp only [hzero, if_false] at h
  rcases hmake : progress.files.makeDirectories path path.pieces.ancestors with ⟨error | _, made⟩
  · rw [hmake] at h
    cases h
  · rw [hmake] at h
    cases h
    have hmade := isDirectory_of_makeDirectories (congrArg Prod.fst hmake)
    rw [hmake] at hmade
    exact hmade.imp_left .inl

/-! ## Directories that were listed -/

/-- Where an entry of a directory was handled, the target has a directory. -/
theorem Handles.isDirectory {root : Job} {trace : List (List FileName)} {name : FileName} {a b : Progress}
    (h : Handles root trace a b) (hmem : names ++ [name] ∈ trace) :
    b.files.isDirectory (root.along names).target.directory = true := by
  obtain ⟨before, after, inner, -, -, hentry, hrun⟩ := h.handled hmem
  exact isDirectory_grows (isDirectory_of_handleEntry hentry) hrun.grows

/-- Below a plain target a directory of the source gets one, unless something was at its place from the beginning. -/
theorem Handles.isDirectory_or_provided {trace : List (List FileName)} {a b : Progress}
    (h : Handles ⟨source, target⟩ trace a b) (hnodup : trace.Nodup) (hplain : a.files.PlainBelow target)
    (hmem : names ∈ trace) (hsource : a.files.isDirectory (source.joinAll names) = true) :
    b.files.isDirectory (target.joinAll names) = true ∨ Provided a.files (target.joinAll names) := by
  obtain ⟨front, name, rfl⟩ := (List.eq_nil_or_concat names).resolve_left (h.ne_nil hmem)
  rw [List.concat_eq_append] at *
  obtain ⟨before, after, rfl⟩ := List.append_of_mem hmem
  have hnew : front ++ [name] ∉ before := fun hbefore =>
    (List.nodup_append.1 hnodup).2.2 _ hbefore _ (.head _) rfl
  obtain ⟨middle, next, inner, hbefore, hprovided, hentry, hafter⟩ := h.split
  have hconfined := confined_of_runs hplain hbefore.runs
  obtain ⟨place, hbelow, heffect⟩ := handleEntry_effect (hconfined.plainBelow hplain) hprovided hentry
  have hsame := hbefore.bare?_of_not_mem hplain (hconfined.below hbelow) hnew
  have hdirectory := isDirectory_grows hsource hbefore.runs.grows
  cases heffect with
  | present _ hold _ => exact .inr (.inr (leads_of_below hplain.linkFreeBelow (hconfined.below hbelow) (hsame ▸ hold)))
  | @directory mode around entries _ hnone _ hput _ =>
    have hstep := handleEntry_runs hprovided hentry
    have hplain' := (hconfined.runs hplain hstep).plainBelow hplain
    have hnode : next.files.bare? place = some (.directory around.newDirectory []) :=
      (hput.bare?_eq place).trans (if_pos rfl)
    have hstat := ((hbelow.grows hstep.grows).stat_iff hplain'.linkFreeBelow).2 (get?_of_bare? hnode)
    exact .inl (isDirectory_grows (isDirectory_iff.2 ⟨_, hstat⟩) hafter.runs.grows)
  | device hfile _ _ _ => exact absurd hdirectory (not_isDirectory_of_file (stat_eq_file_iff.2 ⟨_, hfile⟩))
  | file hfile _ _ _ => exact absurd hdirectory (not_isDirectory_of_file (stat_eq_file_iff.2 ⟨_, hfile⟩))

/-! ## The whole deployment -/

/-- **Directories are brought over.** If a deployment succeeds, its target is a directory unless something else was there
before. For every directory of the source something is at its place in the target, and that is a directory, except perhaps
if the directory of the source was empty; in a target that is plain below, it is then what was there before. -/
theorem deploy_directories (files : FileSystem) (order : ListingOrder) (source target : Path) {report : Report}
    (h : (files.deploy order source target).result = .ok report) :
    (Provided files target ∨ (files.deploy order source target).files.isDirectory target = true) ∧
    ∀ names, files.isDirectory (source.joinAll names) = true →
      Provided (files.deploy order source target).files (target.joinAll names) ∧
      ((files.deploy order source target).files.isDirectory (target.joinAll names).directory = true ∨
        files.list (source.joinAll names) = .ok [] ∧
          ((files.withDirectory target).PlainBelow target → Provided (files.withDirectory target) (target.joinAll names))) := by
  obtain ⟨trace, progress, -, hprovide, hhandles, hcomplete, -, hfiles⟩ := (deploy_goes files order source target).done_of_ok h
  have hmade : files.Grows (begun files target).files := (withDirectory_madeAt files target).grows
  have hgrows := hmade.trans hhandles.runs.grows
  rw [hfiles]
  constructor
  · exact (isDirectory_of_provideDirectory hprovide).imp_right fun hdirectory =>
      isDirectory_grows hdirectory hhandles.runs.grows
  intro names hsource
  have hfinal := isDirectory_grows hsource hgrows
  have htarget : Provided (begun files target).files target := by
    have hmeets := provideDirectory_meets target ⟨files, ⟨0, 0⟩⟩
    rw [hprovide] at hmeets
    exact hmeets.success () rfl
  have hmem : names ∈ [[]] ∨ names ∈ trace := by
    by_cases hnil : names = []
    · exact .inl (List.mem_singleton.2 hnil)
    · exact .inr (mem_of_leads hhandles hcomplete hnil (leads_of_isDirectory hsource))
  have hprovided : Provided progress.files (target.joinAll names) := by
    rcases hmem with hnil | hmem
    · rw [List.mem_singleton.1 hnil]
      exact htarget.grows hhandles.runs.grows
    · exact hhandles.provided hmem hfinal
  refine ⟨hprovided, ?_⟩
  obtain ⟨listed, ⟨middle, hbefore, -, hlist⟩, hiff⟩ := hcomplete.listed names (hmem.imp_right fun hmem => ⟨hmem, hfinal⟩)
  obtain ⟨all, hall⟩ := list_of_isDirectory hsource
  cases all with
  | cons name rest =>
    have hname : name ∈ listed := mem_list_grows (hmade.trans hbefore.grows) hall hlist (.head rest)
    exact .inl (hhandles.isDirectory ((hiff name).2 hname))
  | nil =>
    by_cases hdirectory : progress.files.isDirectory (target.joinAll names).directory = true
    · exact .inl hdirectory
    refine .inr ⟨hall, fun hplain => ?_⟩
    rcases hmem with hnil | hmem
    · rw [List.mem_singleton.1 hnil]
      exact htarget
    · have hempty : ¬ (target.joinAll names).isEmpty := by
        simp [Path.isEmpty_joinAll target (hhandles.ne_nil hmem)]
      rw [directory_eq_self hempty] at hdirectory
      have hstart := isDirectory_grows hsource hmade
      exact (hhandles.isDirectory_or_provided hcomplete.nodup hplain hmem hstart).resolve_left hdirectory

/-- A directory of the source with a file in it and an empty one, for which the target has a file: at `s/x`, `s/y` and
`t/y`. -/
def emptyAndFile : FileSystem :=
  built do
    let files ← FileSystem.empty.writeFile (.ofString "s/x/f") [0x78]
    let files ← files.ensurePath (.ofString "s/y")
    files.writeFile (.ofString "t/y") [0x79]

theorem deploy_directories_emptyAndFile :
    (emptyAndFile.deploy .byName (.ofString "s") (.ofString "t")).result = .ok ⟨1, 1⟩ ∧
    (emptyAndFile.deploy .byName (.ofString "s") (.ofString "t")).files.isDirectory
      ((Path.ofString "t").joinAll [firstName]) = true ∧
    Provided (emptyAndFile.deploy .byName (.ofString "s") (.ofString "t")).files
      ((Path.ofString "t").joinAll [secondName]) ∧
    (emptyAndFile.deploy .byName (.ofString "s") (.ofString "t")).files.isDirectory
      ((Path.ofString "t").joinAll [secondName]) = false := by
  have hresult : (emptyAndFile.deploy .byName (.ofString "s") (.ofString "t")).result = .ok ⟨1, 1⟩ := by cbv
  have hdirectories := (deploy_directories emptyAndFile .byName (.ofString "s") (.ofString "t") hresult).2
  obtain ⟨-, hfirst⟩ := hdirectories [firstName] rfl
  obtain ⟨hsecond, -⟩ := hdirectories [secondName] rfl
  have hlist : emptyAndFile.list ((Path.ofString "s").joinAll [firstName]) = .ok [fileName] := rfl
  refine ⟨hresult, hfirst.resolve_right fun h => ?_, hsecond, by cbv⟩
  rw [hlist] at h
  cases h.1

/-! ## Empty directories -/

/-- An empty directory is deployed to whatever is there, a directory or not. -/
theorem deploy_empty (order : ListingOrder) (hsource : files.list source = .ok []) (htarget : files.Leads target) :
    files.deploy order source target = ⟨.ok ⟨0, 0⟩, files⟩ := by
  have hdirectory := isDirectory_of_list hsource
  obtain ⟨mode, hstat⟩ := isDirectory_iff.1 hdirectory
  have hlength := length_of_leads (leads_of_isDirectory hdirectory)
  obtain ⟨room, hroom⟩ : ∃ room, pathLimit - source.spelling.length = room + 1 :=
    ⟨pathLimit - source.spelling.length - 1, by omega⟩
  have hnothing : order.arrange source [] = [] := (order.perm source []).eq_nil
  have hhandle : handleDirectory order ⟨source, target⟩ ⟨files, ⟨0, 0⟩⟩ = .ok [] ⟨files, ⟨0, 0⟩⟩ := by
    rw [handleDirectory, hsource]
    simp only [hnothing]
    rfl
  have hprovide : provideDirectory target ⟨files, ⟨0, 0⟩⟩ = .ok () ⟨files, ⟨0, 0⟩⟩ :=
    provideDirectory_of_provided (.inr htarget)
  have hstart : start order source target ⟨files, ⟨0, 0⟩⟩ = .ok () ⟨files, ⟨0, 0⟩⟩ := by
    rw [start, hstat, hroom]
    simp only [hprovide, Attempt.ok_andThen, descend, hhandle]
    rfl
  rw [FileSystem.deploy, hstart]
  rfl

/-- So an empty directory that is deployed onto a file leaves the file, and does not fail. -/
theorem deploy_empty_onto_file (order : ListingOrder) {data : FileData} (hsource : files.list source = .ok [])
    (htarget : files.stat target = .ok (.file data)) :
    (files.deploy order source target).result = .ok ⟨0, 0⟩ ∧
      (files.deploy order source target).files.isDirectory target ≠ true := by
  rw [deploy_empty order hsource (leads_of_stat htarget)]
  exact ⟨rfl, not_isDirectory_of_file htarget⟩

end Deployment

end ConsoleKit
