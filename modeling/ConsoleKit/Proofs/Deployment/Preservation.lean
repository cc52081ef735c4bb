import ConsoleKit.Proofs.Deployment.PlainTrees

/-!
# What a deployment leaves alone

A deployment from a source that is separated from a target without links below it leaves the rest of the file system as
it is, whatever it comes to (`deploy_framed`): what was there stays, nothing changes but below the target and where the
target itself was missing, and the source is not touched.
-/

namespace ConsoleKit

open FileSystem

namespace Deployment

variable {files made final : FileSystem} {source target : Path}

/-- What stays as it is when a source is deployed into a target. -/
structure Framed (source target : Path) (files final : FileSystem) : Prop where
  /-- What is at a place stays there. -/
  place : ∀ place entry, files.get? place = some entry → ∃ entry', final.get? place = some entry' ∧ entry.Kept entry'
  /-- A path that led somewhere leads to the same kind of thing. -/
  path : ∀ path entry, files.stat path = .ok entry → ∃ entry', final.stat path = .ok entry' ∧ entry.Kept entry'
  /-- A place that changed is a new directory to which an ancestor of the target leads, or is below the target where the
  source leads somewhere, too. -/
  changed : ∀ place, final.get? place = files.get? place ∨
    (files.get? place = none ∧ (∃ mode, final.get? place = some (.directory mode)) ∧
      ∃ path ∈ target.ancestors, ∃ spot, final.find path = .ok spot ∧ spot.location = place ∧ spot.removed = false) ∨
    ∃ names, final.Below target names place ∧ final.Leads (source.joinAll names)
  /-- What the source led to is the same, with the same entries if it is a directory. -/
  source : ∀ names spot, files.find (source.joinAll names) = .ok spot →
    ∃ spot', final.find (source.joinAll names) = .ok spot' ∧ spot'.location = spot.location ∧
      spot'.removed = spot.removed ∧ final.entryOf spot'.node = files.entryOf spot.node ∧
      (spot.removed = false → ∀ name, final.get? (name :: spot.location) = files.get? (name :: spot.location))
  /-- No link is made. -/
  link : ∀ place path, final.get? place = some (.link path) → files.get? place = some (.link path)

/-- Making the missing part of the target touches nothing that the source reaches. -/
theorem bare?_withDirectory (hsep : files.Separated source target) {spot : Spot} {node : Node}
    (hreached : files.Reaches source spot) (hlive : spot.removed = false) (hnode : files.node? spot.location = some node) :
    (files.withDirectory target).bare? spot.location = files.bare? spot.location ∧
      ∀ name, (files.withDirectory target).bare? (name :: spot.location) = files.bare? (name :: spot.location) := by
  have hmade := withDirectory_madeAt files target
  have hsame : (files.withDirectory target).bare? spot.location = files.bare? spot.location := by
    rcases hmade.bare? spot.location with hsame | ⟨hnone, -⟩
    · exact hsame
    · rw [bare?_of_node? hnode] at hnone
      cases hnone
  refine ⟨hsame, ?_⟩
  intro name
  rcases hmade.bare? (name :: spot.location) with hsame' | ⟨hnone, ⟨mode, hmode⟩, -⟩
  · exact hsame'
  · -- A new entry would be one that the directory receives.
    obtain ⟨full, hfull, -⟩ := bare?_eq_some_iff.1 hmode
    obtain ⟨mode', entries, hparent, -⟩ := node?_parent hfull
    have hdirectory : files.get? spot.location = some (.directory mode') :=
      get?_of_bare? (hsame.symm.trans (bare?_of_node? hparent))
    have hnew : (files.withDirectory target).get? (name :: spot.location) ≠ none := by
      rw [get?_of_bare? hmode]
      simp
    exact absurd ⟨⟨mode', hdirectory⟩, name, get?_eq_none_iff.2 hnone, hnew⟩ (hsep.not_receives spot hreached hlive)

/-- What the source reaches is the same afterwards, with the same entries. So it is if another source was deployed. -/
theorem source_of_confined {other : Path} (hsep : files.Separated source target)
    (hplain : (files.withDirectory target).PlainBelow target)
    (hconfined : Confined other target (files.withDirectory target) final) {spot : Spot} {node : Node}
    (hreached : files.Reaches source spot) (hlive : spot.removed = false) (hnode : files.node? spot.location = some node) :
    final.bare? spot.location = files.bare? spot.location ∧
      ∀ name, final.bare? (name :: spot.location) = files.bare? (name :: spot.location) := by
  obtain ⟨hmade, hmade'⟩ := bare?_withDirectory hsep hreached hlive hnode
  obtain ⟨node', hnode', -⟩ := bare?_eq_some_iff.1 (hmade.trans (bare?_of_node? hnode))
  obtain ⟨hfinal, hfinal'⟩ := hconfined.bare?_reached hplain hsep.not_same hreached hlive hnode'
  exact ⟨hfinal.trans hmade, fun name => (hfinal' name).trans (hmade' name)⟩

theorem reaches_of_find {names : List FileName} {spot : Spot} (h : files.find (source.joinAll names) = .ok spot) :
    files.Reaches source spot :=
  ⟨names, by rw [directory_of_find h, h]⟩

/-- A place that a run has changed after the missing part of the target was made. -/
theorem changed_of_confined (hconfined : Confined source target (files.withDirectory target) final) (place : Location) :
    final.get? place = files.get? place ∨
      (files.get? place = none ∧ (∃ mode, final.get? place = some (.directory mode)) ∧
        ∃ path ∈ target.ancestors, ∃ spot, final.find path = .ok spot ∧ spot.location = place ∧ spot.removed = false) ∨
      ∃ names, final.Below target names place ∧ final.Leads (source.joinAll names) := by
  have hmade := withDirectory_madeAt files target
  have hshared : final.shared = files.shared := hconfined.shared.trans hmade.shared
  rcases hconfined.bare? place with hsame | ⟨names, hbelow, hleads, -⟩
  · rcases hmade.bare? place with hsame' | ⟨hnone, ⟨mode, hmode⟩, path, hpath, spot, hfind, hplace, hlive⟩
    · exact .inl (get?_congr (hsame.trans hsame') hshared)
    · obtain ⟨spot', hfind', hspot⟩ := find_grows hconfined.grows hfind
      right
      left
      refine ⟨get?_eq_none_iff.2 hnone, ⟨mode, get?_of_bare? (hsame.trans hmode)⟩, path, hpath, spot', hfind', ?_, ?_⟩
      · exact hspot.location_eq.trans hplace
      · exact hspot.removed_eq.trans hlive
  · exact .inr (.inr ⟨names, hbelow.grows hconfined.grows, hleads⟩)

/-- What a path of the source led to is the same after a run, with the same entries. -/
theorem source_kept_of_confined {other : Path} (hsep : files.Separated source target)
    (hplain : (files.withDirectory target).PlainBelow target)
    (hconfined : Confined other target (files.withDirectory target) final) {names : List FileName} {spot : Spot}
    (hfind : files.find (source.joinAll names) = .ok spot) :
    ∃ spot', final.find (source.joinAll names) = .ok spot' ∧ spot'.location = spot.location ∧
      spot'.removed = spot.removed ∧ final.entryOf spot'.node = files.entryOf spot.node ∧
      (spot.removed = false → ∀ name, final.get? (name :: spot.location) = files.get? (name :: spot.location)) := by
  have hmade := withDirectory_madeAt files target
  have hshared : final.shared = files.shared := hconfined.shared.trans hmade.shared
  have hreached := reaches_of_find hfind
  have hbecomes := find_becomes hfind
  obtain ⟨spot', hfind', hspot⟩ := find_grows (hmade.grows.trans hconfined.grows) hfind
  refine ⟨spot', hfind', hspot.location_eq, hspot.removed_eq, ?_, ?_⟩
  · cases hspot with
    | live hlive hlive' =>
      obtain ⟨hsame, -⟩ := source_of_confined hsep hplain hconfined hreached rfl hlive
      have hentry := get?_congr hsame hshared
      unfold get? at hentry
      rw [hlive, hlive', Option.map_some, Option.map_some, Option.some.injEq] at hentry
      exact hentry
    | removed location mode => rfl
  · intro hlive name
    cases hbecomes with
    | live hnode _ =>
      obtain ⟨-, hentries⟩ := source_of_confined hsep hplain hconfined hreached rfl hnode
      exact get?_congr (hentries name) hshared
    | removed => cases hlive

/-- A link that is there after a run was there before. -/
theorem link_of_confined (hconfined : Confined source target (files.withDirectory target) final) {place : Location}
    {path : Path} (hlink : final.get? place = some (.link path)) : files.get? place = some (.link path) := by
  have hmade := withDirectory_madeAt files target
  have hbare := get?_eq_link_iff.1 hlink
  refine get?_eq_link_iff.2 ?_
  rcases hconfined.bare? place with hsame | ⟨names, -, -, hfilled⟩
  · rcases hmade.bare? place with hsame' | ⟨-, ⟨mode, hmode⟩, -⟩
    · rw [← hsame', ← hsame, hbare]
    · rw [← hsame, hbare] at hmode
      cases hmode
  · rw [hbare] at hfilled
    generalize (files.withDirectory target).bare? place = old at hfilled
    cases hfilled

/-- A run below the target, after its missing part was made, leaves everything else as it is. -/
theorem framed_of_confined (hsep : files.Separated source target) (hplain : (files.withDirectory target).PlainBelow target)
    (hconfined : Confined source target (files.withDirectory target) final) : Framed source target files final := by
  have hgrows : files.Grows final := (withDirectory_madeAt files target).grows.trans hconfined.grows
  constructor
  · intro place entry hentry
    exact hgrows.get? hentry
  · intro path entry hentry
    exact hgrows.stat hentry
  · intro place
    exact changed_of_confined hconfined place
  · intro names spot hfind
    exact source_kept_of_confined hsep hplain hconfined hfind
  · intro place path hlink
    exact link_of_confined hconfined hlink

theorem Framed.refl (source target : Path) (files : FileSystem) : Framed source target files files := by
  constructor
  · intro place entry hentry
    exact ⟨entry, hentry, .same entry⟩
  · intro path entry hentry
    exact ⟨entry, hentry, .same entry⟩
  · intro place
    exact .inl rfl
  · intro names spot hfind
    exact ⟨spot, hfind, rfl, rfl, rfl, fun _ _ => rfl⟩
  · intro place path hlink
    exact hlink

/-- A deployment leaves alone what it is not to change, whether it succeeds or not. -/
theorem deploy_framed (files : FileSystem) (order : ListingOrder) (source target : Path)
    (hsep : files.Separated source target) (hplain : (files.withDirectory target).PlainBelow target) :
    Framed source target files (files.deploy order source target).files := by
  rcases files.deploy_runs order source target with hsame | hrun
  · rw [hsame]
    exact .refl source target files
  · exact framed_of_confined hsep hplain (confined_of_runs hplain hrun)

theorem deploy_framed_twoDirectories : twoDirectories.Separated (.ofString "s") (.ofString "t") ∧
    (twoDirectories.withDirectory (.ofString "t")).PlainBelow (.ofString "t") ∧
    Framed (.ofString "s") (.ofString "t") twoDirectories
      (twoDirectories.deploy .byName (.ofString "s") (.ofString "t")).files :=
  ⟨separated_twoDirectories, plainBelow_twoDirectories,
    deploy_framed twoDirectories .byName (.ofString "s") (.ofString "t") separated_twoDirectories plainBelow_twoDirectories⟩

/-! ## Before the missing part of the target is made -/

/-- A path to the source that leads nowhere as long as `a` is missing. -/
def detour : Path :=
  .ofString "a/../s"

theorem not_find_detour : ∀ base, oneFile.find detour.directory ≠ .ok base := by
  intro base hbase
  have hmissing : oneFile.find detour.directory = .error .notFound := rfl
  rw [hmissing] at hbase
  cases hbase

theorem plainBelow_detour : oneFile.PlainBelow detour := by
  intro base hbase
  exact absurd hbase (not_find_detour base)

theorem separatedAtFirst_detour : SeparatedAtFirst oneFile (.ofString "s") detour := by
  have hsource : oneFile.find (Path.ofString "s").directory =
      .ok ⟨[directoryName], .directory 0o755 [(fileName, .file ⟨[0x78], 0o644⟩)], false⟩ := rfl
  exact separatedAtFirst_of_unmade hsource rfl rfl (not_suffix_of_clearOf rfl) not_find_detour

/-- A file system in which the source has a link that leads nowhere until something is deployed, and the target has a
file of that name. -/
def strayLink : FileSystem :=
  built do
    let files ← oneFile.makeLink (.ofString "s/y/l") (.ofString "../../t/f")
    files.writeFile (.ofString "t/y/l") [0x6F, 0x6C, 0x64]

/-- The directory of the source in `strayLink`. -/
def strayDirectory : Node :=
  .directory 0o755 [(⟨[0x6C], by decide⟩, .link (.ofString "../../t/f"))]

/-- The source in `strayLink`. -/
def straySource : Node :=
  .directory 0o755 [(fileName, .file ⟨[0x78], 0o644⟩), (⟨[0x79], by decide⟩, strayDirectory)]

/-- The target in `strayLink`. -/
def strayTarget : Node :=
  .directory 0o755 [(⟨[0x79], by decide⟩, .directory 0o755 [(⟨[0x6C], by decide⟩, .file ⟨[0x6F, 0x6C, 0x64], 0o644⟩)])]

theorem linksNowhere_strayLink : strayLink.LinksNowhere [directoryName] := by
  have hsource : strayLink.node? [directoryName] = some straySource := rfl
  exact linksNowhere_of_isDeadEnd hsource rfl

theorem separatedAtFirst_strayLink : SeparatedAtFirst strayLink (.ofString "s") (.ofString "t") := by
  have hsource : strayLink.find (Path.ofString "s").directory = .ok ⟨[directoryName], straySource, false⟩ := rfl
  have htarget : strayLink.find (.ofString "t") = .ok ⟨[targetName], strayTarget, false⟩ := rfl
  exact separatedAtFirst_of_linksNowhere hsource htarget rfl rfl linksNowhere_strayLink rfl directoryName_not_suffix
    targetName_not_suffix

/-- It is not enough that source and target are separated at first, and what the source has is to be told at the end. A
target that leads to the source once its missing part is made overwrites the source; and a link of the source that led
nowhere at first may lead to a file by the time it is copied, over a file of the target. -/
theorem not_framed_at_first :
    (¬ ∀ (files : FileSystem) (order : ListingOrder) (source target : Path), SeparatedAtFirst files source target →
      files.PlainBelow target → ∀ names entry, files.stat (source.joinAll names) = .ok entry →
        (files.deploy order source target).files.stat (source.joinAll names) = .ok entry) ∧
    ¬ ∀ (files : FileSystem) (order : ListingOrder) (source target : Path), SeparatedAtFirst files source target →
      files.PlainBelow target → ∀ names, ¬ files.Leads (source.joinAll names) →
        ∀ entry, files.stat (target.joinAll names) = .ok entry →
          (files.deploy order source target).files.stat (target.joinAll names) = .ok entry := by
  constructor
  · intro h
    have hkept := h oneFile .byName (.ofString "s") detour separatedAtFirst_detour plainBelow_detour [fileName] _ rfl
    have hfinal : (oneFile.deploy .byName (.ofString "s") detour).files.stat ((Path.ofString "s").joinAll [fileName]) =
        .ok (.file ⟨[], 0o644⟩) := rfl
    cases hfinal.symm.trans hkept
  · intro h
    have htarget : strayLink.find (Path.ofString "t").directory = .ok ⟨[targetName], strayTarget, false⟩ := rfl
    have hleads : ¬ strayLink.Leads ((Path.ofString "s").joinAll [⟨[0x79], by decide⟩, ⟨[0x6C], by decide⟩]) := by
      rintro ⟨spot, hfind⟩
      cases hfind
    have hkept := h strayLink .byName (.ofString "s") (.ofString "t") separatedAtFirst_strayLink
      (plainBelow_of_isPlain htarget rfl) _ hleads (.file ⟨[0x6F, 0x6C, 0x64], 0o644⟩) rfl
    have hfinal : (strayLink.deploy .byName (.ofString "s") (.ofString "t")).files.stat
        ((Path.ofString "t").joinAll [⟨[0x79], by decide⟩, ⟨[0x6C], by decide⟩]) = .ok (.file ⟨[0x78], 0o644⟩) := rfl
    cases hfinal.symm.trans hkept

end Deployment

end ConsoleKit
