import ConsoleKit.Proofs.Deployment.Confinement
import ConsoleKit.Proofs.Files.Parents

/-!
# What a deployment adds

In a file system of directories and regular files a deployment changes no kinds: it adds entries to the target, and each is
of the kind of the entry of the source that it is for (`adds_of_runs`). Making the target adds directories on the way to it
(`kind?_withDirectory`). Neither touches a directory that is apart from the target.
-/

namespace ConsoleKit

namespace FileSystem

open ConsoleKit.Path (along)

open Deployment (withDirectory_madeAt)

variable {files files' : FileSystem} {place place' location : Location} {node : Node} {path target : Path}
  {names : List FileName}

theorem PutAt.kind? (h : PutAt files files' place node) (place' : Location) :
    files'.kind? place' = if place' = place then some node.kind else files.kind? place' := by
  rw [kind?_eq_map_bare?, kind?_eq_map_bare?, h.bare?_eq]
  split <;> rfl

theorem kind?_setData {ref : FileRef} {data : FileData} (h : files.dataOf? ref = some data) (data' : FileData)
    (place : Location) : (files.setData ref data').kind? place = files.kind? place := by
  cases ref with
  | own location =>
    have hnode := dataOf?_own.1 h
    rw [(putAt_setData hnode data').kind? place]
    split
    · rename_i hplace
      rw [hplace, FileSystem.kind?, hnode]
      rfl
    · rfl
  | shared id => rfl

/-- Making a path of names adds directories only, on the way to its place. -/
theorem kind?_withDirectory (h : files.Spells target location names) (hcheck : checkPath target = .ok ())
    (hfree : files.LinkFree location) (place : Location) :
    (files.withDirectory target).kind? place = files.kind? place ∨ files.kind? place = none ∧
      (files.withDirectory target).kind? place = some .directory ∧ place <:+ names.reverse ++ location := by
  have hmade := withDirectory_madeAt files target
  rw [kind?_eq_map_bare?, kind?_eq_map_bare?]
  rcases hmade.bare? place with hsame | ⟨hnone, ⟨mode, hnew⟩, path, hpath, spot, hfind, rfl, -⟩
  · exact .inl (congrArg _ hsame)
  · rw [hnone, hnew]
    refine .inr ⟨rfl, rfl, ?_⟩
    have hbeginning : path.spelling <+: target.spelling ∧ ∃ front rest, names = front ++ rest ∧ path.steps = along front := by
      rcases List.mem_cons.1 hpath with rfl | hpath
      · exact ⟨List.prefix_rfl, names, [], (List.append_nil names).symm, h.steps⟩
      · obtain ⟨hbegins, front, name, after, rfl, hsteps⟩ := Path.mem_properAncestors h.steps hpath
        exact ⟨hbegins, front, name :: after, rfl, hsteps⟩
    obtain ⟨hbegins, front, rest, rfl, hsteps⟩ := hbeginning
    obtain ⟨mode', entries, horigin⟩ := (h.grows hmade.grows).origin
    obtain ⟨node, -, rfl⟩ := (hmade.linkFree hfree).find_beginning hcheck horigin hbegins hsteps hfind
    rw [List.reverse_append, List.append_assoc]
    exact List.suffix_append _ _

end FileSystem

namespace Deployment

open FileSystem

variable {files before middle after : FileSystem} {source target : Path} {location place : Location} {names : List FileName}

/-- What is new at a place stands for an entry of the source: it is of its kind. -/
structure New (source : Path) (names : List FileName) (place : Location) (before after : FileSystem) : Prop where
  none : before.kind? place = none
  kind : after.kind? place = some (if after.isDirectory (source.joinAll names) then .directory else .file)
  leads : after.Leads (source.joinAll names)

/-- All that is new is below a place, and stands there for an entry of the source. Everything else is of the kind it was. -/
structure Adds (source : Path) (place : Location) (before after : FileSystem) : Prop where
  grows : before.Grows after
  kind? : ∀ place', after.kind? place' = before.kind? place' ∨
    ∃ names, names ≠ [] ∧ place' = names.reverse ++ place ∧ New source names place' before after

theorem Adds.refl (source : Path) (place : Location) (files : FileSystem) : Adds source place files files :=
  ⟨.refl files, fun _ => .inl rfl⟩

theorem Adds.ordinary (h : Adds source place before after) (hordinary : before.Ordinary) : after.Ordinary := by
  rw [ordinary_iff] at *
  intro place' kind hkind
  rcases h.kind? place' with hsame | ⟨names, -, -, hnew⟩
  · exact hordinary place' kind (hsame.symm.trans hkind)
  · rw [hnew.kind, Option.some.injEq] at hkind
    subst hkind
    split
    · exact .inl rfl
    · exact .inr rfl

theorem Adds.trans (h : Adds source place before middle) (h' : Adds source place middle after) :
    Adds source place before after := by
  refine ⟨h.grows.trans h'.grows, fun place' => ?_⟩
  rcases h'.kind? place' with hsame | ⟨names, hne, hplace, hnew⟩
  · rcases h.kind? place' with hsame' | ⟨names, hne, hplace, hnew⟩
    · exact .inl (hsame.trans hsame')
    · refine .inr ⟨names, hne, hplace, hnew.none, ?_, hnew.leads.grows h'.grows⟩
      rw [hsame, hnew.kind, isDirectory_eq h'.grows hnew.leads]
  · rcases h.kind? place' with hsame' | ⟨_, _, _, hnew'⟩
    · exact .inr ⟨names, hne, hplace, hsame' ▸ hnew.none, hnew.kind, hnew.leads⟩
    · have hnone := hnew.none
      rw [hnew'.kind] at hnone
      cases hnone

/-- A change at one place, where nothing was, adds what stands for an entry of the source. -/
theorem adds_of_putAt {node : Node} (hput : PutAt before after (names.reverse ++ place) node) (hne : names ≠ [])
    (hnone : before.kind? (names.reverse ++ place) = none) (hgrows : before.Grows after)
    (hkind : node.kind = if after.isDirectory (source.joinAll names) then .directory else .file)
    (hleads : after.Leads (source.joinAll names)) : Adds source place before after := by
  refine ⟨hgrows, fun place' => ?_⟩
  by_cases hplace : place' = names.reverse ++ place
  · refine .inr ⟨names, hne, hplace, hplace ▸ hnone, ?_, hleads⟩
    rw [hput.kind?, if_pos hplace, hkind]
  · exact .inl ((hput.kind? place').trans (if_neg hplace))

theorem not_isDirectory_of_readsFile {path : Path} {ref : FileRef} {data : FileData} (h : files.ReadsFile path ref data) :
    files.isDirectory path = false := by
  have hstat := stat_eq_file_iff.2 ⟨ref, h⟩
  unfold isDirectory
  rw [hstat]

section Target

variable (hordinary : before.Ordinary) (htarget : ∀ base, before.find target.directory = .ok base → base.location = place)

include hordinary htarget

theorem adds_of_step (h : Step source target before after) : Adds source place before after := by
  have hgrows := h.grows
  cases h with
  | @directory names mode _ hne hsource hmake =>
    obtain ⟨place', around, entries, hbelow, hnone, -, hput⟩ := makeDirectory_putAt (hordinary.linkFreeBelow target) hne hmake
    obtain ⟨base, hbase, -, rfl⟩ := hbelow.base
    rw [htarget base hbase] at hput hnone
    have hdirectory := isDirectory_grows (isDirectory_iff.2 ⟨mode, hsource⟩) hgrows
    refine adds_of_putAt hput hne ?_ hgrows ?_ (leads_of_isDirectory hdirectory)
    · rw [kind?_eq_map_bare?, hnone]
      rfl
    · rw [if_pos hdirectory]
      rfl
  | @file names _ hne hcopy =>
    obtain ⟨ref, data, destination, hreads, hdestination, rfl⟩ := copyFile_inv hcopy
    rcases destination_inv hdestination with ⟨ref', old, rfl, hold⟩ | ⟨directory, name, rfl, hwalk⟩ | ⟨rfl, -⟩
    · exact ⟨hgrows, fun place' => .inl (kind?_setData hold.dataOf? _ place')⟩
    · obtain ⟨place', hbelow, ⟨_, -, harrival⟩ | ⟨_, _, hplace, hnone, harrival⟩⟩ :=
        below_of_walk (hordinary.linkFreeBelow target) hne hwalk
      · cases harrival
      · cases harrival
        obtain ⟨base, hbase, -, hbelow'⟩ := hbelow.base
        have hsame : name :: directory = names.reverse ++ place := by rw [← hplace, hbelow', htarget base hbase]
        have hput := putAt_vacant hwalk (FileData.copy ⟨if Destination.vacant (name :: directory) = .existing ref then []
          else data.content, data.mode⟩)
        generalize before.store _ _ = after at *
        rw [hsame] at hput
        rw [hplace, hsame] at hnone
        obtain ⟨data', hreads'⟩ := hreads.grows hgrows
        refine adds_of_putAt hput hne (kind?_eq_none_iff.2 hnone) hgrows ?_ ?_
        · rw [not_isDirectory_of_readsFile hreads']
          rfl
        · exact leads_of_stat (stat_eq_file_iff.2 ⟨ref, hreads'⟩)
    · exact ⟨hgrows, fun place' => .inl rfl⟩

end Target

/-- A run adds entries to the target that stand for entries of the source, and changes nothing else. -/
theorem adds_of_runs (hordinary : before.Ordinary) (htarget : before.Denotes target location names)
    (h : Runs source target before after) : Adds source (names.reverse ++ location) before after := by
  induction h with
  | refl => exact .refl _ _ _
  | tail _ hstep ih =>
    have hordinary' := ih.ordinary hordinary
    refine ih.trans (adds_of_step hordinary' (fun base hbase => ?_) hstep)
    rw [Path.directory, if_neg (not_isEmpty_of_checkPath htarget.accepted)] at hbase
    obtain ⟨node, -, rfl⟩ := (htarget.grows ih.grows).spells.find_inv (hordinary'.linkFree location) hbase
    rfl

end Deployment

end ConsoleKit
