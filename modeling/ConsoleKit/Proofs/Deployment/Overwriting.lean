import ConsoleKit.Proofs.Deployment.PlainTrees

/-!
# Source files that a deployment overwrites

Source and target are never compared, and what a file is copied to may be a file of the source. This module says what
becomes of a file of the source then, for paths that may meet in any way: it keeps its content if every copy onto it
brings just that (`runs_content`), and otherwise has the content that one of the copies brought, which is nothing at all
for a copy onto itself (`Brought.runs`, `brought_of_covered`).
-/

namespace ConsoleKit

open Deployment

namespace FileSystem

variable {files files' final : FileSystem} {source target : Path} {names : List FileName} {ref : FileRef} {data : FileData}

/-- The regular file that the source has at the given names is copied onto the given file. -/
structure Overwrites (files : FileSystem) (source target : Path) (names : List FileName) (ref : FileRef) : Prop where
  ne_nil : names ≠ []
  reads : ∃ ref' data, files.ReadsFile (source.joinAll names) ref' data
  writes : ∃ data, files.ReadsFile (target.joinAll names) ref data

/-- What comes to be in a file onto which a path is copied: nothing if the path leads to the file itself. -/
def Brings (files : FileSystem) (path : Path) (ref : FileRef) (content : Bytes) : Prop :=
  ∃ ref' data, files.ReadsFile path ref' data ∧ content = if ref' = ref then [] else data.content

theorem Brings.unique {path : Path} {content content' : Bytes} (h : files.Brings path ref content)
    (h' : files.Brings path ref content') : content' = content := by
  obtain ⟨_, _, hreads, rfl⟩ := h
  obtain ⟨_, _, hreads', rfl⟩ := h'
  obtain ⟨rfl, rfl⟩ := hreads.unique hreads'
  rfl

theorem Overwrites.grows (h : files.Overwrites source target names ref) (hgrows : files.Grows files') :
    files'.Overwrites source target names ref := by
  obtain ⟨ref', data, hreads⟩ := h.reads
  obtain ⟨data', hreads'⟩ := hreads.grows hgrows
  obtain ⟨old, hwrites⟩ := h.writes
  exact ⟨h.ne_nil, ⟨ref', data', hreads'⟩, hwrites.grows hgrows⟩

end FileSystem

namespace Deployment

open FileSystem

variable {files files' final : FileSystem} {source target : Path} {names : List FileName} {ref : FileRef} {data : FileData}

/-- What the source has at the given names has just been copied onto a file. -/
def CopiedOnto (source target : Path) (names : List FileName) (ref : FileRef) (files files' : FileSystem) : Prop :=
  ∃ ref' data, files.Overwrites source target names ref ∧ files.ReadsFile (source.joinAll names) ref' data ∧
    files'.dataOf? ref = some (FileData.copy ⟨if ref' = ref then [] else data.content, data.mode⟩)

theorem copiedOnto_of_copyFile (hne : names ≠ [])
    (hcopy : files.copyFile (source.joinAll names) (target.joinAll names) = .ok files') (hdata : files.dataOf? ref = some data)
    (hdestination : files.destination (target.joinAll names) = .ok (.existing ref)) :
    CopiedOnto source target names ref files files' := by
  obtain ⟨ref', read, destination, hreads, hdestination', rfl⟩ := copyFile_inv hcopy
  rw [hdestination, Except.ok.injEq] at hdestination'
  subst hdestination'
  have hwrites : ∃ old, files.ReadsFile (target.joinAll names) ref old := by
    rcases destination_inv hdestination with ⟨_, old, heq, hwrites⟩ | ⟨_, _, heq, _⟩ | ⟨heq, _⟩ <;> cases heq
    exact ⟨old, hwrites⟩
  refine ⟨ref', read, ⟨hne, ⟨ref', read, hreads⟩, hwrites⟩, hreads, ?_⟩
  rw [dataOf?_store hdestination hdata, if_pos rfl]
  simp only [existing_eq_iff]

/-- A step leaves the data of a file alone, or copies something onto it. -/
theorem step_dataOf? (h : Step source target files files') (hdata : files.dataOf? ref = some data) :
    files'.dataOf? ref = some data ∨ ∃ names, CopiedOnto source target names ref files files' := by
  cases h with
  | directory hne hsource hmake => exact .inl ((makeDirectory_madeAt hmake).dataOf? hdata)
  | @file names _ hne hcopy =>
    obtain ⟨ref', read, destination, hreads, hdestination, hfiles'⟩ := copyFile_inv hcopy
    by_cases hhit : destination = .existing ref
    · subst hhit
      exact .inr ⟨names, copiedOnto_of_copyFile hne hcopy hdata hdestination⟩
    · rw [hfiles', dataOf?_store hdestination hdata, if_neg hhit]
      exact .inl rfl

/-- A file keeps its data as long as nothing that the source has is copied onto it. What is copied onto it in between is
copied onto it at the end, because the file system grows. -/
theorem runs_dataOf? (h : Runs source target files files') (hdata : files.dataOf? ref = some data)
    (hnone : ∀ names, ¬ files'.Overwrites source target names ref) : files'.dataOf? ref = some data := by
  induction h with
  | refl => exact hdata
  | @tail middle _ hrun hstep ih =>
    have hmiddle := ih fun names hhit => hnone names (hhit.grows hstep.grows)
    rcases step_dataOf? hstep hmiddle with hsame | ⟨names, _, _, hhit, -, -⟩
    · exact hsame
    · exact absurd (hhit.grows hstep.grows) (hnone names)

/-- What is copied onto a file is known from the beginning: every source path that is copied onto it led to a regular
file then, which is the file itself or one onto which nothing is copied. -/
def Foreseen (files final : FileSystem) (source target : Path) (ref : FileRef) : Prop :=
  ∀ names, final.Overwrites source target names ref → ∃ ref' data, files.ReadsFile (source.joinAll names) ref' data ∧
    (ref' = ref ∨ ∀ names', ¬ final.Overwrites source target names' ref')

/-- The file holds what was copied onto it. -/
def Brought (files final : FileSystem) (source target : Path) (ref : FileRef) (files' : FileSystem) : Prop :=
  ∃ names data, final.Overwrites source target names ref ∧ files.Brings (source.joinAll names) ref data.content ∧
    files'.dataOf? ref = some data

/-- What a copy onto a file brings is what its source path brought from the beginning. -/
theorem CopiedOnto.brought {before after : FileSystem} (h : CopiedOnto source target names ref before after)
    (hforeseen : Foreseen files final source target ref) (hrun : Runs source target files before)
    (hrest : before.Grows final) : Brought files final source target ref after := by
  obtain ⟨ref', read, hhit, hreads, hafter⟩ := h
  obtain ⟨first, begun, hfirst, hquiet⟩ := hforeseen names (hhit.grows hrest)
  obtain ⟨read', hread'⟩ := hfirst.grows hrun.grows
  obtain ⟨rfl, rfl⟩ := hread'.unique hreads
  refine ⟨names, _, hhit.grows hrest, ⟨ref', begun, hfirst, ?_⟩, hafter⟩
  rcases hquiet with rfl | hquiet
  · rw [if_pos rfl, if_pos rfl]
    rfl
  · have hkept := runs_dataOf? hrun hfirst.dataOf? fun names' hhit' => hquiet names' (hhit'.grows hrest)
    rw [hreads.dataOf?, Option.some.injEq] at hkept
    rw [hkept]
    rfl

/-- A file keeps its content as long as every copy onto it brings just that. -/
theorem runs_content {middle : FileSystem} (hforeseen : Foreseen files final source target ref)
    (hsame : ∀ names, final.Overwrites source target names ref → files.Brings (source.joinAll names) ref data.content)
    (hdata : files.dataOf? ref = some data) (hrun : Runs source target files middle) (hrest : middle.Grows final) :
    ∃ data', middle.dataOf? ref = some data' ∧ data'.content = data.content := by
  induction hrun with
  | refl => exact ⟨data, hdata, rfl⟩
  | tail hrun hstep ih =>
    obtain ⟨data', hdata', hcontent⟩ := ih (hstep.grows.trans hrest)
    rcases step_dataOf? hstep hdata' with hkept | ⟨names, hcopied⟩
    · exact ⟨data', hkept, hcontent⟩
    · obtain ⟨names', read, hhit, hbrings, hread⟩ := hcopied.brought hforeseen hrun (hstep.grows.trans hrest)
      exact ⟨read, hread, (hsame names' hhit).unique hbrings⟩

/-- Once something was copied onto a file it holds, to the end, what one of the copies brought. -/
theorem Brought.runs {middle : FileSystem} (h : Brought files final source target ref middle)
    (hforeseen : Foreseen files final source target ref) (hrun : Runs source target files middle)
    (hrest : Runs source target middle final) : Brought files final source target ref final := by
  induction hrest using Relation.ReflTransGen.head_induction_on with
  | refl => exact h
  | @head middle after hstep hrest ih =>
    refine ih ?_ (hrun.tail hstep)
    obtain ⟨names, data, hfinal, hbrings, hdata⟩ := h
    rcases step_dataOf? hstep hdata with hsame | ⟨names', hcopied⟩
    · exact ⟨names, data, hfinal, hbrings, hsame⟩
    · exact hcopied.brought hforeseen hrun (hstep.grows.trans (Runs.grows hrest))

/-- What leads to a file at the end was that file when something was copied to it, if the file was there already. -/
theorem destination_eq_existing {before after : FileSystem} (hdata : before.dataOf? ref = some data)
    (hcopy : before.copyFile (source.joinAll names) (target.joinAll names) = .ok after) (hrest : after.Grows final)
    (hwrites : ∃ data, final.ReadsFile (target.joinAll names) ref data) :
    before.destination (target.joinAll names) = .ok (.existing ref) := by
  obtain ⟨old, hwrites⟩ := hwrites
  obtain ⟨_, _, destination, -, hdestination, rfl⟩ := copyFile_inv hcopy
  rcases readsFile_store hdestination _ with rfl | ⟨ref', hreads, hcases⟩
  · rcases destination_inv hdestination with ⟨_, _, heq, _⟩ | ⟨_, _, heq, _⟩ | ⟨-, spot, hfind, hnode⟩
    · cases heq
    · cases heq
    · exact absurd hwrites (not_readsFile_of_device hfind hnode hrest)
  · obtain ⟨_, hreads'⟩ := hreads.grows hrest
    obtain ⟨rfl, -⟩ := hwrites.unique hreads'
    rcases hcases with rfl | ⟨directory, name, rfl, rfl⟩
    · exact hdestination
    · rcases destination_inv hdestination with ⟨_, _, heq, _⟩ | ⟨_, _, heq, hwalk⟩ | ⟨heq, _⟩ <;> cases heq
      rw [dataOf?_own, (walk_vacant hwalk).2] at hdata
      cases hdata

/-- A deployment that succeeds has copied something onto every file onto which something that it was to copy leads. -/
theorem brought_of_covered (hforeseen : Foreseen files final source target ref)
    (hcovered : CoveredBelow source target ⟨source, target⟩ files final) (hdata : files.dataOf? ref = some data)
    (hhit : final.Overwrites source target names ref) : Brought files final source target ref final := by
  obtain ⟨ref', read, ⟨spot, hfind, hregular⟩, -⟩ := hforeseen names hhit
  have hnot : ∀ mode, files.stat (source.joinAll names) ≠ .ok (.directory mode) := by
    intro mode hmode
    obtain ⟨spot', entries, hfind', hnode⟩ := stat_directory_iff.1 hmode
    rw [hfind, Except.ok.injEq] at hfind'
    rw [hfind', hnode] at hregular
    cases hregular
  obtain ⟨before, after, hbefore, hcopy, hafter⟩ := (hcovered names hhit.ne_nil ⟨spot, hfind⟩).file ⟨spot, hfind⟩ hnot
  obtain ⟨data', hdata'⟩ := dataOf?_grows hdata hbefore.grows
  have hdestination := destination_eq_existing hdata' hcopy hafter.grows hhit.writes
  have hcopied := copiedOnto_of_copyFile hhit.ne_nil hcopy hdata' hdestination
  have hstep : Step source target before after := .file hhit.ne_nil hcopy
  exact (hcopied.brought hforeseen hbefore (hstep.grows.trans hafter.grows)).runs hforeseen (hbefore.tail hstep) hafter

/-- What becomes of a regular file of the source, however source and target meet. It keeps its content, whatever the
deployment comes to, if every copy onto it brings just that, and so if there is none. If there is one, and the
deployment succeeds, it has the content that one of the copies brought, which is nothing for a copy onto itself. -/
theorem deploy_source_file (files : FileSystem) (order : ListingOrder) (source target : Path) {names : List FileName}
    {ref : FileRef} {data : FileData} (hfile : files.ReadsFile (source.joinAll names) ref data)
    (hforeseen : Foreseen files (files.deploy order source target).files source target ref) :
    ((∀ names', (files.deploy order source target).files.Overwrites source target names' ref →
          files.Brings (source.joinAll names') ref data.content) →
        ∃ data', (files.deploy order source target).files.ReadsFile (source.joinAll names) ref data' ∧
          data'.content = data.content) ∧
      ((∃ report, (files.deploy order source target).result = .ok report) →
        (∃ names', (files.deploy order source target).files.Overwrites source target names' ref) →
          ∃ names' data', (files.deploy order source target).files.Overwrites source target names' ref ∧
            files.Brings (source.joinAll names') ref data'.content ∧
            (files.deploy order source target).files.ReadsFile (source.joinAll names) ref data') := by
  have hmade := withDirectory_madeAt files target
  have hkept : ∀ {path ref data}, files.ReadsFile path ref data → (files.withDirectory target).ReadsFile path ref data :=
    fun hreads => hreads.of_dataOf? hmade.grows (hmade.dataOf? hreads.dataOf?)
  have hforeseen' : Foreseen (files.withDirectory target) (files.deploy order source target).files source target ref := by
    intro names' hhit
    obtain ⟨ref', read, hreads, hquiet⟩ := hforeseen names' hhit
    exact ⟨ref', read, hkept hreads, hquiet⟩
  constructor
  · intro hsame
    rcases files.deploy_runs order source target with hfiles | hrun
    · rw [hfiles]
      exact ⟨data, hfile, rfl⟩
    · have hsame' : ∀ names', (files.deploy order source target).files.Overwrites source target names' ref →
          (files.withDirectory target).Brings (source.joinAll names') ref data.content := by
        intro names' hhit
        obtain ⟨ref', read, hreads, hcontent⟩ := hsame names' hhit
        exact ⟨ref', read, hkept hreads, hcontent⟩
      obtain ⟨data', hdata', hcontent⟩ := runs_content hforeseen' hsame' (hkept hfile).dataOf? hrun (.refl _)
      exact ⟨data', (hkept hfile).of_dataOf? hrun.grows hdata', hcontent⟩
  · rintro ⟨report, hreport⟩ ⟨names', hhit⟩
    obtain ⟨-, -, hrun, hcovered⟩ := deploy_covers hreport
    obtain ⟨names'', data', hhit', hbrings, hdata'⟩ := brought_of_covered hforeseen' hcovered (hkept hfile).dataOf? hhit
    obtain ⟨ref', read, hreads, -⟩ := hforeseen names'' hhit'
    have hcontent := FileSystem.Brings.unique ⟨ref', read, hkept hreads, rfl⟩ hbrings
    exact ⟨names'', data', hhit', ⟨ref', read, hreads, hcontent⟩, (hkept hfile).of_dataOf? hrun.grows hdata'⟩

/-! ## A directory that is deployed onto itself -/

/-- A directory that is deployed onto itself: the one copy onto the file is that of the file itself, and empties it. -/
theorem deploy_oneFile_onto_itself : ∃ data,
    (oneFile.deploy .byName (.ofString "s") (.ofString "s")).files.ReadsFile (.ofString "s/f")
      (.own [fileName, directoryName]) data ∧ data.content = [] := by
  have hold : oneFile.dataOf? (.own [fileName, directoryName]) = some ⟨[0x78], Mode.newFile⟩ := rfl
  have hfinal : (oneFile.deploy .byName (.ofString "s") (.ofString "s")).files =
      oneFile.setData (.own [fileName, directoryName]) ⟨[], Mode.newFile⟩ := rfl
  have hnew := dataOf?_setData_self hold ⟨[], Mode.newFile⟩
  have hback : (oneFile.deploy .byName (.ofString "s") (.ofString "s")).files.Grows oneFile :=
    hfinal ▸ setData_grows hnew ⟨[0x78], Mode.newFile⟩
  have hfile : oneFile.ReadsFile ((Path.ofString "s").joinAll [fileName]) (.own [fileName, directoryName])
      ⟨[0x78], Mode.newFile⟩ := ⟨_, rfl, rfl⟩
  have hhit : (oneFile.deploy .byName (.ofString "s") (.ofString "s")).files.Overwrites (.ofString "s") (.ofString "s")
      [fileName] (.own [fileName, directoryName]) :=
    ⟨by simp, ⟨_, _, _, rfl, rfl⟩, ⟨_, _, rfl, rfl⟩⟩
  have hitself : ∀ names, (oneFile.deploy .byName (.ofString "s") (.ofString "s")).files.Overwrites (.ofString "s")
      (.ofString "s") names (.own [fileName, directoryName]) →
        ∃ data, oneFile.ReadsFile ((Path.ofString "s").joinAll names) (.own [fileName, directoryName]) data := by
    intro names hhit
    obtain ⟨_, hwrites⟩ := hhit.writes
    exact hwrites.grows hback
  have hforeseen : Foreseen oneFile (oneFile.deploy .byName (.ofString "s") (.ofString "s")).files (.ofString "s")
      (.ofString "s") (.own [fileName, directoryName]) := by
    intro names hhit
    obtain ⟨data, hreads⟩ := hitself names hhit
    exact ⟨_, data, hreads, .inl rfl⟩
  obtain ⟨names, data, hhit', ⟨ref, read, hreads, hcontent⟩, hdata⟩ :=
    (deploy_source_file oneFile .byName (.ofString "s") (.ofString "s") hfile hforeseen).2 ⟨_, rfl⟩ ⟨_, hhit⟩
  obtain ⟨_, hreads'⟩ := hitself names hhit'
  rw [if_pos (hreads'.unique hreads).1] at hcontent
  exact ⟨data, hdata, hcontent⟩

/-- The content of a file of the source need not outlive a deployment that succeeds. -/
theorem deploy_destroys_source : ¬ ∀ (files : FileSystem) (order : ListingOrder) (source target : Path)
    (names : List FileName) (data : FileData), files.stat (source.joinAll names) = .ok (.file data) →
      ∃ data', (files.deploy order source target).files.stat (source.joinAll names) = .ok (.file data') ∧
        data'.content = data.content := by
  intro h
  obtain ⟨data, hstat, hcontent⟩ :=
    h oneFile .byName (.ofString "s") (.ofString "s") [fileName] ⟨[0x78], Mode.newFile⟩ rfl
  have hempty : (oneFile.deploy .byName (.ofString "s") (.ofString "s")).files.stat ((Path.ofString "s").joinAll [fileName]) =
      .ok (.file ⟨[], Mode.newFile⟩) := rfl
  rw [hempty] at hstat
  cases hstat
  cases hcontent

end Deployment

end ConsoleKit
