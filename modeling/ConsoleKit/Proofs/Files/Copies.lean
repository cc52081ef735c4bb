import ConsoleKit.Proofs.Files.Changes
import ConsoleKit.Proofs.Files.Looking

/-!
# Copying files

A copy reads one regular file and writes one (`copyFile_inv`), and the path of its target leads to that one afterwards
(`readsFile_store`). Writing a file leaves the data of every other as they are (`dataOf?_store`).
-/

namespace ConsoleKit

/-- The data that a new file has after the given data are copied into it. -/
def FileData.copy (data : FileData) : FileData :=
  ⟨data.content, if data.content.isEmpty then data.mode else data.mode.written⟩

namespace FileSystem

variable {files files' : FileSystem} {path source target : Path} {ref : FileRef} {data : FileData}

/-- What a path that is opened for writing leads to: a file, a place where nothing is, or a device. -/
theorem destination_inv {destination : Destination} (h : files.destination target = .ok destination) :
    (∃ ref data, destination = .existing ref ∧ files.ReadsFile target ref data) ∨
      (∃ directory name, destination = .vacant (name :: directory) ∧
        files.walk .write target = .ok (.vacant directory name)) ∨
      destination = .device ∧ ∃ spot, files.find target = .ok spot ∧ spot.node = .device := by
  unfold FileSystem.destination at h
  cases hwalk : files.walk .write target with
  | error error => simp [hwalk, bind, Except.bind] at h
  | ok arrival =>
    cases arrival with
    | vacant directory name =>
      simp only [hwalk, bind, Except.bind, pure, Except.pure, Except.ok.injEq] at h
      exact .inr (.inl ⟨directory, name, h.symm, rfl⟩)
    | found spot =>
      have hfind := find_of_walk hwalk
      simp only [hwalk, bind, Except.bind, pure, Except.pure] at h
      cases hregular : files.regular? spot.location spot.node with
      | some result =>
        obtain ⟨ref, data⟩ := result
        simp only [hregular, Except.ok.injEq] at h
        exact .inl ⟨ref, data, h.symm, spot, hfind, hregular⟩
      | none =>
        rw [hregular] at h
        cases hnode : spot.node with
        | device =>
          simp only [hnode, Except.ok.injEq] at h
          exact .inr (.inr ⟨h.symm, spot, hfind, hnode⟩)
        | _ => simp [hnode] at h

theorem walk_of_destination {destination : Destination} (h : files.destination target = .ok destination) :
    ∃ arrival, files.walk .write target = .ok arrival := by
  unfold FileSystem.destination at h
  cases hwalk : files.walk .write target with
  | error error => simp [hwalk, bind, Except.bind] at h
  | ok arrival => exact ⟨arrival, rfl⟩

/-- A file is only written into a directory. -/
theorem isDirectory_directory_of_destination {path : Path} {names : List FileName} {destination : Destination} (hne : names ≠ [])
    (h : files.destination (path.joinAll names) = .ok destination) : files.isDirectory path.directory = true := by
  obtain ⟨arrival, hwalk⟩ := walk_of_destination h
  exact isDirectory_directory_of_walk hne hwalk

/-- A file is created where nothing was. -/
theorem putAt_vacant {directory : Location} {name : FileName} (h : files.walk .write target = .ok (.vacant directory name))
    (data : FileData) : PutAt files (files.store (.vacant (name :: directory)) data) (name :: directory) (.file data) := by
  obtain ⟨⟨mode, entries, hparent⟩, hnone⟩ := walk_vacant h
  refine putAt_put (.file data) hparent rfl fun old hold => ?_
  rw [hnone] at hold
  cases hold

theorem dataOf?_setData_self (h : files.dataOf? ref = some data) (data' : FileData) :
    (files.setData ref data').dataOf? ref = some data' := by
  cases ref with
  | own location =>
    have hnode := dataOf?_own.1 h
    refine dataOf?_own.2 ?_
    cases location with
    | nil => rfl
    | cons name parent =>
      obtain ⟨mode, entries, hparent, -⟩ := node?_parent hnode
      exact node?_put hparent _ (.file data')
  | shared id => simp [dataOf?, setData]

/-- What is put at a place leaves the files elsewhere as they are. -/
theorem PutAt.dataOf? {place : Location} {node : Node} (h : PutAt files files' place node) (hne : ref ≠ .own place) :
    files'.dataOf? ref = files.dataOf? ref := by
  cases ref with
  | own location =>
    have hplace : location ≠ place := fun hplace => hne (congrArg FileRef.own hplace)
    have hbare : files'.bare? location = files.bare? location := (h.bare?_eq location).trans (if_neg hplace)
    refine Option.ext fun data => ?_
    rw [dataOf?_own, dataOf?_own, ← bare?_eq_file_iff, ← bare?_eq_file_iff, hbare]
  | shared id => rw [FileSystem.dataOf?, FileSystem.dataOf?, h.shared]

theorem dataOf?_setData_of_ne {ref' : FileRef} (h : files.dataOf? ref = some data) (data' : FileData) (hne : ref' ≠ ref) :
    (files.setData ref data').dataOf? ref' = files.dataOf? ref' := by
  cases ref with
  | own location => exact (putAt_setData (dataOf?_own.1 h) data').dataOf? hne
  | shared id =>
    cases ref' with
    | own location => rfl
    | shared id' =>
      have hid : id' ≠ id := fun hid => hne (congrArg FileRef.shared hid)
      simp [FileSystem.dataOf?, setData, hid]

/-- Storing data changes those of one file, if there are any. -/
theorem dataOf?_store {destination : Destination} (h : files.destination target = .ok destination) {ref : FileRef}
    {data : FileData} (hdata : files.dataOf? ref = some data) (data' : FileData) :
    (files.store destination data').dataOf? ref = some (if destination = .existing ref then data' else data) := by
  rcases destination_inv h with ⟨ref', data'', rfl, hreads⟩ | ⟨directory, name, rfl, hwalk⟩ | ⟨rfl, -⟩
  · by_cases hne : ref = ref'
    · subst hne
      rw [if_pos rfl]
      exact dataOf?_setData_self hdata data'
    · rw [if_neg (by simpa using fun h => hne h.symm), ← hdata]
      exact dataOf?_setData_of_ne hreads.dataOf? data' hne
  · have hput := putAt_vacant hwalk data'
    obtain ⟨-, hnone⟩ := walk_vacant hwalk
    rw [if_neg (by simp), ← hdata]
    refine hput.dataOf? ?_
    rintro rfl
    rw [dataOf?_own, hnone] at hdata
    cases hdata
  · rw [if_neg (by simp)]
    exact hdata

theorem existing_eq_iff {ref' : FileRef} : Destination.existing ref = .existing ref' ↔ ref' = ref := by
  rw [Destination.existing.injEq]
  exact eq_comm

/-- What is written to when a file is copied: the file that the source path leads to is read, and loses its content if
the target path leads to it too. -/
theorem copyFile_inv (h : files.copyFile source target = .ok files') :
    ∃ ref data destination, files.ReadsFile source ref data ∧ files.destination target = .ok destination ∧
      files' = files.store destination
        (FileData.copy ⟨if destination = .existing ref then [] else data.content, data.mode⟩) := by
  unfold copyFile at h
  cases hfind : files.find source with
  | error error => simp [hfind, bind, Except.bind] at h
  | ok spot =>
    cases hregular : files.regular? spot.location spot.node with
    | none => simp [hfind, hregular, bind, Except.bind] at h
    | some result =>
      obtain ⟨ref, data⟩ := result
      cases hdestination : files.destination target with
      | error error => simp [hfind, hregular, hdestination, bind, Except.bind] at h
      | ok destination =>
        simp only [hfind, hregular, hdestination, bind, Except.bind, pure, Except.pure, Except.ok.injEq] at h
        exact ⟨ref, data, destination, ⟨spot, hfind, hregular⟩, rfl, h.symm⟩

theorem setData_grows (h : files.dataOf? ref = some data) (data' : FileData) : Grows files (files.setData ref data') := by
  cases ref with
  | own location =>
    have hold := dataOf?_own.1 h
    refine (putAt_setData hold data').grows fun node hnode => ?_
    rw [bare?_of_node? hold, Option.some.injEq] at hnode
    rw [← hnode]
    exact .file data data'
  | shared id => exact grows_setData_shared id data'

theorem store_grows {destination : Destination} (h : files.destination target = .ok destination) (data : FileData) :
    Grows files (files.store destination data) := by
  rcases destination_inv h with ⟨ref, old, rfl, hreads⟩ | ⟨directory, name, rfl, hwalk⟩ | ⟨rfl, -⟩
  · exact setData_grows hreads.dataOf? data
  · refine (putAt_vacant hwalk data).grows fun node hnode => ?_
    rw [bare?_eq_none_iff.2 (walk_vacant hwalk).2] at hnode
    cases hnode
  · exact .refl files

theorem copyFile_grows (h : files.copyFile source target = .ok files') : Grows files files' := by
  obtain ⟨ref, data, destination, -, hdestination, rfl⟩ := copyFile_inv h
  exact store_grows hdestination _

/-- After a copy the target path leads to the file that was written, unless it leads to a device. -/
theorem readsFile_store {destination : Destination} (h : files.destination target = .ok destination) (data : FileData) :
    destination = .device ∨ ∃ ref, (files.store destination data).ReadsFile target ref data ∧
      (destination = .existing ref ∨ ∃ directory name, ref = .own (name :: directory) ∧
        destination = .vacant (name :: directory)) := by
  have hgrows := store_grows h data
  rcases destination_inv h with ⟨ref, old, rfl, hreads⟩ | ⟨directory, name, rfl, hwalk⟩ | ⟨rfl, -⟩
  · obtain ⟨data', hreads'⟩ := hreads.grows hgrows
    have hdata := dataOf?_store h hreads.dataOf? data
    rw [if_pos rfl, hreads'.dataOf?, Option.some.injEq] at hdata
    subst hdata
    exact .inr ⟨ref, hreads', .inl rfl⟩
  · obtain ⟨⟨mode, entries, hparent⟩, -⟩ := walk_vacant hwalk
    have hnode : (files.store (.vacant (name :: directory)) data).node? (name :: directory) = some (.file data) :=
      node?_put hparent _ (.file data)
    exact .inr ⟨.own (name :: directory), ⟨_, find_filled hgrows hnode (by simp) hwalk, rfl⟩,
      .inr ⟨directory, name, rfl, rfl⟩⟩
  · exact .inl rfl

/-- The copy of a file goes to no directory. -/
theorem stat_ne_directory_of_copyFile (h : files.copyFile source target = .ok files') (mode : Mode) :
    files.stat target ≠ .ok (.directory mode) := by
  intro hstat
  obtain ⟨ref, data, destination, -, hdestination, rfl⟩ := copyFile_inv h
  rcases destination_inv hdestination with ⟨ref', old, -, hreads⟩ | ⟨directory, name, -, hwalk⟩ | ⟨-, spot, hfind, hnode⟩
  · rw [stat_eq_file_iff.2 ⟨ref', hreads⟩] at hstat
    cases hstat
  · obtain ⟨spot, entries, hfind, -⟩ := stat_directory_iff.1 hstat
    obtain ⟨hcheck, start, horigin, hfollow⟩ := walk_eq_ok_iff.1 hwalk
    have hvacant := walk_eq_ok_iff.2 ⟨hcheck, start, horigin, follow_find hfollow⟩
    cases hvacant.symm.trans (find_eq_ok_iff.1 hfind)
  · obtain ⟨spot', entries, hfind', hnode'⟩ := stat_directory_iff.1 hstat
    rw [hfind, Except.ok.injEq] at hfind'
    subst hfind'
    rw [hnode] at hnode'
    cases hnode'

end FileSystem

end ConsoleKit
