import ConsoleKit.Proofs.Deployment.Course
import ConsoleKit.Proofs.Deployment.Reproduction

/-!
# What comes to the places below the target

If source and target are separated and the target is plain below, every place below the target to which the source has
something to bring is as it was once the missing part of the target was made, or mirrors the source (`Mirrored`). This
holds at every moment of a deployment (`mirrors_of_runs`), and what mirrors the source is determined by the beginning,
whatever was done before it.
-/

namespace ConsoleKit

open FileSystem

namespace Deployment

variable {files before after final : FileSystem} {order : ListingOrder} {source target : Path} {names : List FileName}
  {place : Location}

/-- What the source has at some names came to a place below the target: a new directory, or a copy of a file. -/
inductive Mirrored (files : FileSystem) (source target : Path) (names : List FileName) (place : Location)
    (final : FileSystem) : Prop where
  | directory {mode around : Mode} {entries : List (FileName × Node)}
      (hsource : files.stat (source.joinAll names) = .ok (.directory mode))
      (hnone : (files.withDirectory target).bare? place = none)
      (haround : final.node? place.tail = some (.directory around entries))
      (hnew : final.bare? place = some (.directory around.newDirectory []))
  | file {data : FileData} (hsource : files.stat (source.joinAll names) = .ok (.file data))
      (hold : (files.withDirectory target).bare? place = none ∨
        ∃ old, (files.withDirectory target).bare? place = some (.file old))
      (hnew : final.bare? place = some (.file data.copy))

theorem Mirrored.of_directory {mode : Mode} (h : Mirrored files source target names place final)
    (hsource : files.stat (source.joinAll names) = .ok (.directory mode)) :
    (files.withDirectory target).bare? place = none ∧ ∃ around entries,
      final.node? place.tail = some (.directory around entries) ∧ final.bare? place = some (.directory around.newDirectory []) := by
  cases h with
  | directory _ hnone haround hnew => exact ⟨hnone, _, _, haround, hnew⟩
  | file hfile _ _ =>
    rw [hsource] at hfile
    cases hfile

theorem Mirrored.of_file {data : FileData} (h : Mirrored files source target names place final)
    (hsource : files.stat (source.joinAll names) = .ok (.file data)) :
    ((files.withDirectory target).bare? place = none ∨ ∃ old, (files.withDirectory target).bare? place = some (.file old)) ∧
      final.bare? place = some (.file data.copy) := by
  cases h with
  | directory hdirectory _ _ _ =>
    rw [hsource] at hdirectory
    cases hdirectory
  | file hfile hold hnew =>
    rw [hsource, Except.ok.injEq, Entry.file.injEq] at hfile
    exact ⟨hold, hfile ▸ hnew⟩

/-- Only places below the target have changed, and where the source had something before, they mirror it. -/
structure Mirrors (files : FileSystem) (source target : Path) (final : FileSystem) : Prop where
  confined : Confined source target (files.withDirectory target) final
  place : ∀ names place, (files.withDirectory target).Below target names place → files.Leads (source.joinAll names) →
    final.bare? place = (files.withDirectory target).bare? place ∨ Mirrored files source target names place final

theorem Mirrors.refl (files : FileSystem) (source target : Path) :
    Mirrors files source target (files.withDirectory target) :=
  ⟨.refl source target _, fun _ _ _ _ => .inl rfl⟩

/-- What comes to a place for a directory of the source is a directory, if nothing else was there. -/
theorem Mirrors.node_of_directory (h : Mirrors files source target final) {mode : Mode} {node : Node}
    (hbelow : (files.withDirectory target).Below target names place)
    (hsource : files.stat (source.joinAll names) = .ok (.directory mode))
    (hold : ∀ old, (files.withDirectory target).node? place = some old → ∃ mode entries, old = .directory mode entries)
    (hnode : final.node? place = some node) : ∃ mode entries, node = .directory mode entries := by
  cases hmade : (files.withDirectory target).node? place with
  | some old =>
    obtain ⟨mode, entries, rfl⟩ := hold old hmade
    obtain ⟨entries', hnode'⟩ := h.confined.grows.directory hmade
    rw [hnode, Option.some.injEq] at hnode'
    exact ⟨mode, entries', hnode'⟩
  | none =>
    rcases h.place names place hbelow (leads_of_stat hsource) with hkept | hmirrored
    · rw [bare?_eq_none_iff.2 hmade, bare?_of_node? hnode] at hkept
      cases hkept
    · obtain ⟨-, around, _, -, hnew⟩ := hmirrored.of_directory hsource
      rw [bare?_of_node? hnode, Option.some.injEq] at hnew
      cases node <;> cases hnew
      exact ⟨_, _, rfl⟩

section Separated

variable (hsep : files.Separated source target) (hplain : (files.withDirectory target).PlainBelow target)

include hsep hplain

/-- What a step puts at a place below the target mirrors the source. -/
theorem mirrored_of_fills {node : Node} (hmirrors : Mirrors files source target before)
    (hbelow : (files.withDirectory target).Below target names place) (hleads : files.Leads (source.joinAll names))
    (hfills : before.Fills source names place node) (hput : PutAt before after place node) :
    Mirrored files source target names place after := by
  have hgrows := (withDirectory_madeAt files target).grows.trans hmirrors.confined.grows
  have hnew : after.bare? place = some node := by
    rw [hput.bare?_eq, if_pos rfl]
  cases hfills with
  | @directory mode around entries hsource hnone haround =>
    have hnone' := hmirrors.confined.grows.bare?_eq_none hnone
    have hgrows' : Grows before after := hput.grows fun old hold => by rw [hnone] at hold; cases hold
    obtain ⟨entries', haround'⟩ := hgrows'.directory haround
    exact .directory (stat_directory_of_grows hsource hgrows hleads) hnone' haround' hnew
  | @file ref data hsource hold =>
    -- The file is read as it was before the deployment.
    obtain ⟨spot, hfind⟩ := hleads
    obtain ⟨entry', hstat', hkept⟩ := hgrows.stat (stat_eq_ok_iff.2 ⟨spot, hfind, rfl⟩)
    rw [stat_eq_file_iff.2 ⟨ref, hsource⟩, Except.ok.injEq] at hstat'
    obtain ⟨data₀, hentry⟩ : ∃ data₀, files.entryOf spot.node = .file data₀ := by
      generalize files.entryOf spot.node = entry at hkept
      subst hstat'
      cases hkept with
      | same => exact ⟨data, rfl⟩
      | file data₀ _ => exact ⟨data₀, rfl⟩
    have hstat : files.stat (source.joinAll names) = .ok (.file data₀) := stat_eq_ok_iff.2 ⟨spot, hfind, hentry⟩
    obtain ⟨ref₀, hreads⟩ := stat_eq_file_iff.1 hstat
    obtain ⟨rfl, rfl⟩ := (readsFile_of_confined hsep hplain hreads hmirrors.confined).unique hsource
    rw [if_neg (not_own_below hsep hplain hreads hbelow)] at hnew
    refine .file hstat ?_ hnew
    rcases hmirrors.confined.bare? place with hsame | ⟨-, -, -, hfilled⟩
    · rw [← hsame]
      exact hold
    · generalize (files.withDirectory target).bare? place = old at hfilled
      generalize before.bare? place = new at hfilled
      cases hfilled with
      | directory mode => exact .inl rfl
      | file data => exact .inl rfl
      | data old data => exact .inr ⟨old, rfl⟩

theorem Mirrors.step (h : Mirrors files source target before) (hstep : Step source target before after) :
    Mirrors files source target after := by
  refine ⟨h.confined.step hplain hstep, ?_⟩
  intro names place hbelow hleads
  rcases step_putAt (h.confined.plainBelow hplain) hstep with rfl | ⟨names', place', node, hbelow', hfills, hput⟩
  · exact h.place names place hbelow hleads
  by_cases hplace : place = place'
  · subst hplace
    have hnames := hbelow.names_eq (h.confined.below hbelow')
    subst hnames
    exact .inr (mirrored_of_fills hsep hplain h hbelow hleads hfills hput)
  · have hsame : after.bare? place = before.bare? place := by
      rw [hput.bare?_eq, if_neg hplace]
    rcases h.place names place hbelow hleads with hkept | hmirrored
    · exact .inl (hsame.trans hkept)
    · cases hmirrored with
      | directory hsource hnone haround hnew =>
        obtain ⟨entries', haround'⟩ := hstep.grows.directory haround
        exact .inr (.directory hsource hnone haround' (hsame.trans hnew))
      | file hsource hold hnew => exact .inr (.file hsource hold (hsame.trans hnew))

/-- Every moment of a run mirrors the source. -/
theorem mirrors_of_runs (h : Runs source target (files.withDirectory target) final) :
    Mirrors files source target final := by
  induction h with
  | refl => exact .refl files source target
  | tail _ hstep ih => exact ih.step hsep hplain hstep

end Separated

end Deployment

end ConsoleKit
