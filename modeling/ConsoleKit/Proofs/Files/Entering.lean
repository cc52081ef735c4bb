import ConsoleKit.Proofs.Files.Copies
import ConsoleKit.Proofs.Files.Directories
import ConsoleKit.Proofs.Files.Kinds

/-!
# Entries of a directory that is there

Whether something can be made at the path of an entry depends on the directory around it, once that is found: on the
entry that the directory has under the name, and on the length of the path. A directory can be made where nothing is
(`makeDirectory_of_entry`), and a file can be copied to where no directory is (`copyFile_of_entry`).
-/

namespace ConsoleKit.FileSystem

/-- A path leads to a directory of the tree, and the system accepts the path of an entry with the given name. -/
structure Enters (files : FileSystem) (path : Path) (name : FileName) (location : Location) (mode : Mode)
    (entries : List (FileName × Node)) : Prop where
  found : files.find path.directory = .ok ⟨location, .directory mode entries, false⟩
  accepted : checkPath (path.join name) = .ok ()

section Enters

variable {files : FileSystem} {path source : Path} {name : FileName} {location : Location} {mode : Mode}
  {entries : List (FileName × Node)} {node : Node} {purpose : Purpose} {ref : FileRef} {data : FileData}

theorem Enters.walk (h : files.Enters path name location mode entries) : ∃ links, ∀ purpose,
    files.walk purpose (path.join name) =
      files.follow purpose links ⟨location, .directory mode entries, false⟩ [.entry name.bytes] := by
  have hwalk := walk_joinAll_eq (List.cons_ne_nil name []) h.found h.accepted
  exact hwalk

theorem Enters.walk_vacant (h : files.Enters path name location mode entries) (hlookup : entries.lookup name = none) :
    files.walk purpose (path.join name) = .ok (.vacant location name) := by
  obtain ⟨links, hwalk⟩ := h.walk
  have hrefused : ¬ Refused purpose (.entry name.bytes) [] := fun hrefused => by cases hrefused.2.1
  rw [hwalk purpose]
  refine follow_of_arrived ?_
  rw [advance_missing hrefused (ofBytes?_bytes name) hlookup]
  rfl

theorem Enters.walk_found (h : files.Enters path name location mode entries) (hlookup : entries.lookup name = some node)
    (hlink : ∀ target, node ≠ .link target) :
    files.walk purpose (path.join name) = .ok (.found ⟨name :: location, node, false⟩) := by
  obtain ⟨links, hwalk⟩ := h.walk
  have hrefused : ¬ Refused purpose (.entry name.bytes) [] := fun hrefused => by cases hrefused.2.1
  rw [hwalk purpose]
  refine follow_of_arrived ?_
  rw [advance_passes (.entry (ofBytes?_bytes name) hlookup hlink) hrefused]
  rfl

/-- A directory can be made under a name that the directory around it does not have. -/
theorem makeDirectory_of_entry (h : files.Enters path name location mode entries) (hlookup : entries.lookup name = none) :
    ∃ made, files.makeDirectory (path.join name) = .ok made := by
  obtain ⟨start, horigin, hfollow⟩ := follow_steps h.found
  have horigin' : files.origin (path.join name) = .ok start := by
    rw [origin_congr (Path.isAbsolute_join path name), horigin]
  exact makeDirectory_of_lookup h.accepted (Path.steps_join path name) horigin' hfollow hlookup

/-- A path under a name that is no directory and no link can be written to. -/
theorem destination_of_entry (h : files.Enters path name location mode entries)
    (hclear : ∀ node, entries.lookup name = some node →
      (∀ target, node ≠ .link target) ∧ ∀ mode' entries', node ≠ .directory mode' entries') :
    ∃ destination, files.destination (path.join name) = .ok destination := by
  unfold destination
  cases hlookup : entries.lookup name with
  | none =>
    rw [h.walk_vacant hlookup]
    exact ⟨_, rfl⟩
  | some node =>
    obtain ⟨hlink, hdirectory⟩ := hclear node hlookup
    rw [h.walk_found hlookup hlink]
    cases node with
    | directory mode' entries' => exact absurd rfl (hdirectory mode' entries')
    | link target => exact absurd rfl (hlink target)
    | _ => exact ⟨_, rfl⟩

/-- A file can be copied to where no directory and no link is. -/
theorem copyFile_of_entry (h : files.Enters path name location mode entries) (hreads : files.ReadsFile source ref data)
    (hclear : ∀ node, entries.lookup name = some node →
      (∀ target, node ≠ .link target) ∧ ∀ mode' entries', node ≠ .directory mode' entries') :
    ∃ files', files.copyFile source (path.join name) = .ok files' := by
  obtain ⟨spot, hfind, hregular⟩ := hreads
  obtain ⟨destination, hdestination⟩ := destination_of_entry h hclear
  unfold copyFile
  rw [hfind]
  simp only [bind, Except.bind, hregular, hdestination]
  exact ⟨_, rfl⟩

/-- A directory is not written to. -/
theorem destination_of_directory {mode' : Mode} {entries' : List (FileName × Node)}
    (h : files.Enters path name location mode entries) (hlookup : entries.lookup name = some (.directory mode' entries')) :
    files.destination (path.join name) = .error .isDirectory := by
  rw [destination, h.walk_found hlookup (by simp)]
  rfl

/-- Nothing is written to below a file. -/
theorem destination_below_file (hfind : files.find path = .ok ⟨location, node, false⟩) (hkind : node.kind = .file)
    (hcheck : checkPath (path.join name) = .ok ()) : files.destination (path.join name) = .error .notDirectory := by
  have hadvance : files.advance .write ⟨location, node, false⟩ [.entry name.bytes] = .error .notDirectory := by
    cases node <;> cases hkind <;> rfl
  obtain ⟨links, hwalk⟩ := walk_joinAll_eq (List.cons_ne_nil name []) ((directory_of_find hfind).symm ▸ hfind) hcheck
  have hwalk' : files.walk .write (path.join name) = .error .notDirectory :=
    (hwalk .write).trans (follow_of_error hadvance)
  rw [destination, hwalk']
  rfl

/-- A file that can be read is not copied if its copy cannot be opened. -/
theorem copyFile_of_destination_error {error : SystemError} {target : Path} (hreads : files.ReadsFile source ref data)
    (h : files.destination target = .error error) : files.copyFile source target = .error error := by
  obtain ⟨spot, hfind, hregular⟩ := hreads
  simp only [copyFile, hfind, bind, Except.bind, hregular, h]

end Enters

end ConsoleKit.FileSystem
