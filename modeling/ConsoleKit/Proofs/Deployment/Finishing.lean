import ConsoleKit.Proofs.Deployment.Clearance

/-!
# Deployments that finish

A deployment that finishes has handled every entry of its source (`Finishes`). If source and target are separated and nothing
in the source has come to lead somewhere on the way (`Settled`), the entries are those that the source had at first, nothing
was in the way of any of them (`Finishes.clear`), and what is at the place of each is what was there, or mirrors the source
(`Finishes.place`). Another deployment of the same source, in another order, does not get beyond it (`Finishes.grows`) and
cannot fail (`Finishes.not_stuck`).
-/

namespace ConsoleKit

open FileSystem

namespace Deployment

variable {files middle final : FileSystem} {order : ListingOrder} {source target : Path} {front names : List FileName}
  {name : FileName} {trace trace' : List (List FileName)} {progress progress' : Progress}

/-- What led nowhere from a source still leads nowhere. -/
def Settled (source : Path) (files final : FileSystem) : Prop :=
  ∀ names, final.Leads (source.joinAll names) → files.Leads (source.joinAll names)

/-- A file system before a deployment, and one in the course of it: source and target are separated, the target is plain
below, and the source is settled. -/
structure Underway (files : FileSystem) (source target : Path) (final : FileSystem) : Prop where
  separated : files.Separated source target
  plain : (files.withDirectory target).PlainBelow target
  runs : Runs source target (files.withDirectory target) final
  settled : Settled source files final

theorem Underway.mirrors (h : Underway files source target final) : Mirrors files source target final :=
  mirrors_of_runs h.separated h.plain h.runs

theorem Underway.grows (h : Underway files source target final) : files.Grows final :=
  (withDirectory_madeAt files target).grows.trans h.runs.grows

/-- What a directory of the source lists on the way is what it had before. So it is if another source is deployed. -/
theorem mem_listed_iff {other : Path} {listed : List FileName} {spot : Spot} (hsep : files.Separated source target)
    (hplain : (files.withDirectory target).PlainBelow target)
    (hconfined : Confined other target (files.withDirectory target) middle)
    (hlist : middle.list (source.joinAll front) = .ok listed) (hfind : files.find (source.joinAll front) = .ok spot) :
    name ∈ listed ↔ spot.removed = false ∧ files.bare? (name :: spot.location) ≠ none := by
  have hgrows := (withDirectory_madeAt files target).grows.trans hconfined.grows
  obtain ⟨spot', hfind', hbecomes⟩ := find_grows hgrows hfind
  rw [mem_list_iff hlist hfind', hbecomes.location_eq, hbecomes.removed_eq]
  refine and_congr_right fun hlive => ?_
  have hnode := (find_becomes hfind).node? hlive
  obtain ⟨-, hsame⟩ := source_of_confined hsep hplain hconfined (reaches_of_find hfind) hlive hnode
  rw [← hsame name, ne_eq, bare?_eq_none_iff, ← ne_eq, Option.ne_none_iff_exists']

/-- Where everything was handled, what the source had at first is among it. -/
theorem mem_of_leads (hhandles : Handles ⟨source, target⟩ trace (begun files target) progress)
    (hcomplete : Complete ⟨source, target⟩ [[]] trace (files.withDirectory target) progress.files) (hne : names ≠ [])
    (hleads : files.Leads (source.joinAll names)) : names ∈ trace := by
  have hmade : files.Grows (files.withDirectory target) := (withDirectory_madeAt files target).grows
  refine hcomplete.mem (fun names => files.Leads (source.joinAll names)) ?_ ?_ ?_ hne hleads
  · intro front name hleads hfront
    rw [Path.joinAll_append] at hleads
    obtain ⟨mode, hmode⟩ := stat_of_joinAll (by simp [Path.isEmpty_joinAll source hfront]) (by simp) hleads
    exact leads_of_stat hmode
  · intro front name hleads hmem
    have hnil := hhandles.ne_nil hmem
    rw [Path.joinAll_append] at hleads
    obtain ⟨mode, hmode⟩ := stat_of_joinAll (by simp [Path.isEmpty_joinAll source hnil]) (by simp) hleads
    exact isDirectory_grows (isDirectory_iff.2 ⟨mode, hmode⟩) (hmade.trans hhandles.runs.grows)
  · intro front name middle listed hleads hrun hlist
    rw [Path.joinAll_append] at hleads
    exact mem_list (hleads.grows (hmade.trans hrun.grows)) hlist

/-- A deployment that handled everything: the entries in order, and how far it has come. -/
structure Finishes (files : FileSystem) (source target : Path) (trace : List (List FileName)) (progress : Progress) :
    Prop where
  underway : Underway files source target progress.files
  directory : files.isDirectory source = true
  handles : Handles ⟨source, target⟩ trace (begun files target) progress
  complete : Complete ⟨source, target⟩ [[]] trace (files.withDirectory target) progress.files

/-- The entries that were handled are those of the source. -/
theorem Finishes.mem_iff (h : Finishes files source target trace progress) :
    names ∈ trace ↔ names ≠ [] ∧ files.Leads (source.joinAll names) := by
  constructor
  · intro hmem
    exact ⟨h.handles.ne_nil hmem, h.underway.settled names (h.handles.leads hmem)⟩
  · rintro ⟨hne, hleads⟩
    exact mem_of_leads h.handles h.complete hne hleads

/-- An entry that is listed in one deployment was handled in another one that has finished. -/
theorem Finishes.mem_of_listed (h : Finishes files source target trace progress) {listed : List FileName} {after : FileSystem}
    (hunderway : Underway files source target after)
    (hlisted : ListedBetween ⟨source, target⟩ (files.withDirectory target) after front listed) (hname : name ∈ listed) :
    front ++ [name] ∈ trace ∧ files.isDirectory (source.joinAll front) = true := by
  obtain ⟨middle, hrun, hrun', hlist⟩ := hlisted
  have hdirectory : middle.isDirectory (source.joinAll front) = true := isDirectory_of_list hlist
  have hleads := hunderway.settled front ((leads_of_isDirectory hdirectory).grows hrun'.grows)
  have hsame := isDirectory_eq ((withDirectory_madeAt files target).grows.trans hrun.grows) hleads
  have hdirectory' : files.isDirectory (source.joinAll front) = true := hsame.symm.trans hdirectory
  refine ⟨?_, hdirectory'⟩
  obtain ⟨spot, hfind⟩ := hleads
  have hconfined := confined_of_runs hunderway.plain hrun
  have hchild := (mem_listed_iff hunderway.separated hunderway.plain hconfined hlist hfind).1 hname
  have hhandled : front ∈ [[]] ∨ front ∈ trace ∧ progress.files.isDirectory (source.joinAll front) = true := by
    by_cases hnil : front = []
    · exact .inl (List.mem_singleton.2 hnil)
    · exact .inr ⟨h.mem_iff.2 ⟨hnil, spot, hfind⟩, isDirectory_grows hdirectory' h.underway.grows⟩
  obtain ⟨listed', ⟨middle', hrun', -, hlist'⟩, hiff⟩ := h.complete.listed front hhandled
  have hconfined' := confined_of_runs h.underway.plain hrun'
  exact (hiff name).2 ((mem_listed_iff h.underway.separated h.underway.plain hconfined' hlist' hfind).2 hchild)

/-- Nothing was in the way of any entry of the source. -/
theorem Finishes.clear (h : Finishes files source target trace progress) {entry : Entry}
    (hstat : files.stat (source.joinAll (front ++ [name])) = .ok entry) :
    Clear (files.withDirectory target) target front name entry := by
  have hmem : front ++ [name] ∈ trace := h.mem_iff.2 ⟨by simp, leads_of_stat hstat⟩
  obtain ⟨before, after, inner, hrun, hprovided, hentry, -⟩ := h.handles.handled hmem
  exact clear_of_handleEntry h.underway.plain (confined_of_runs h.underway.plain hrun) hprovided hstat hentry

theorem Confined.device_of {place : Location} {after : FileSystem} (h : Confined source target files after)
    (hdevice : after.bare? place = some .device) : files.bare? place = some .device := by
  rcases h.bare? place with hsame | ⟨-, -, -, hfilled⟩
  · rw [← hsame, hdevice]
  · rw [hdevice] at hfilled
    generalize files.bare? place = old at hfilled
    cases hfilled

/-- What is at the place of an entry of the source in the end: what was there before, or what mirrors the entry. -/
theorem Finishes.place (h : Finishes files source target trace progress) {place : Location} (hmem : names ∈ trace)
    (hbelow : (files.withDirectory target).Below target names place) :
    (progress.files.bare? place = (files.withDirectory target).bare? place ∧
        (files.withDirectory target).bare? place ≠ none ∧
        (files.isDirectory (source.joinAll names) = true ∨ (files.withDirectory target).bare? place = some .device)) ∨
      Mirrored files source target names place progress.files := by
  obtain ⟨hne, hleads⟩ := h.mem_iff.1 hmem
  obtain ⟨front, name, rfl⟩ := (List.eq_nil_or_concat names).resolve_left hne
  rw [List.concat_eq_append] at *
  obtain ⟨before, after, inner, hrun, hprovided, hentry, hrun'⟩ := h.handles.handled hmem
  have hplain := h.underway.plain
  have hmirrors := mirrors_of_runs h.underway.separated hplain hrun
  obtain ⟨place', hbelow', heffect⟩ := handleEntry_effect (hmirrors.confined.plainBelow hplain) hprovided hentry
  obtain rfl := (hmirrors.confined.below hbelow').place_eq hbelow
  have hstep := handleEntry_runs hprovided hentry
  have hthere : progress.files.bare? place ≠ none := fun hnone =>
    heffect.bare?_ne_none (hrun'.grows.bare?_eq_none hnone)
  have hdirectory : ∀ mode, before.files.stat (source.joinAll (front ++ [name])) = .ok (.directory mode) →
      files.isDirectory (source.joinAll (front ++ [name])) = true := by
    intro mode hmode
    have hgrows := (withDirectory_madeAt files target).grows.trans hrun.grows
    exact isDirectory_iff.2 ⟨mode, stat_directory_of_grows hmode hgrows hleads⟩
  rcases h.underway.mirrors.place _ _ hbelow hleads with hkept | hmirrored
  · cases heffect with
    | present hsource _ _ => exact .inl ⟨hkept, hkept ▸ hthere, .inl (hdirectory _ hsource)⟩
    | directory hsource _ _ _ _ => exact .inl ⟨hkept, hkept ▸ hthere, .inl (hdirectory _ hsource)⟩
    | device _ hold _ _ => exact .inl ⟨hkept, hkept ▸ hthere, .inr (hmirrors.confined.device_of hold)⟩
    | file hsource hold hput _ =>
      have hmirrored := mirrored_of_fills h.underway.separated hplain hmirrors hbelow hleads (.file hsource hold) hput
      cases hmirrored with
      | directory _ _ _ hnew =>
        rw [hput.bare?_eq, if_pos rfl] at hnew
        cases hnew
      | file hfile hold' hnew =>
        obtain ⟨ref, hreads⟩ := stat_eq_file_iff.1 hfile
        have hconfined := hmirrors.confined.runs hplain hstep
        exact .inr (.file hfile hold' (copy_stays h.underway.separated hplain hreads hbelow hconfined hnew hrun'))
  · exact .inr hmirrored

/-- Another deployment does not get beyond what one leaves that has finished. The induction is on the entries that the other
one handles: each of them is one that was handled here, as long as nothing leads anywhere that does not do so here. -/
theorem Finishes.grows (h : Finishes files source target trace progress) {start : Progress}
    (hrun : Runs source target (files.withDirectory target) start.files) (hgrows : start.files.Grows progress.files)
    (hhandles : Handles ⟨source, target⟩ trace' start progress') : progress'.files.Grows progress.files := by
  induction hhandles with
  | nil _ => exact hgrows
  | @cons names name inner _ before after _ hprovided hentry _ ih =>
    refine ih (hrun.trans (handleEntry_runs hprovided hentry)) ?_
    have hplain := h.underway.plain
    have hconfined := confined_of_runs hplain hrun
    obtain ⟨hread, -⟩ := handleEntry_ok hentry
    rw [(Job.mk source target).inner_along names name] at hread
    have hleads := h.underway.settled _ (hread.grows hgrows)
    obtain ⟨place, hbelow, heffect⟩ := handleEntry_effect (hconfined.plainBelow hplain) hprovided hentry
    have hplace := h.place (h.mem_iff.2 ⟨hbelow.ne_nil, hleads⟩) (hconfined.below hbelow)
    have hmade := hconfined.grows
    have hfiles := (withDirectory_madeAt files target).grows.trans hmade
    cases heffect with
    | present _ _ hsame =>
      rw [hsame]
      exact hgrows
    | device _ _ hsame _ =>
      rw [hsame]
      exact hgrows
    | directory hsource hnone haround hput _ =>
      rcases hplace with ⟨-, hthere, -⟩ | hmirrored
      · exact absurd (hmade.bare?_eq_none hnone) hthere
      · -- The new directory gets its permission bits from the one around it, which is the same for both.
        obtain ⟨-, _, _, haround', hnew⟩ := hmirrored.of_directory (stat_directory_of_grows hsource hfiles hleads)
        obtain ⟨entries', haround''⟩ := hgrows.directory haround
        rw [haround''] at haround'
        cases haround'
        exact hput.grows_of hgrows hnew (.same _)
    | file hsource hold hput _ =>
      rcases hold with hnone | ⟨old, hold⟩
      · rcases hplace with ⟨-, hthere, -⟩ | hmirrored
        · exact absurd (hmade.bare?_eq_none hnone) hthere
        · cases hmirrored with
          | directory hsource' _ _ _ =>
            have hfile := stat_eq_file_iff.2 ⟨_, hsource⟩
            rw [stat_directory_grows hsource' hfiles] at hfile
            cases hfile
          | file _ _ hnew => exact hput.grows_of hgrows hnew (.file _ _)
      · obtain ⟨node', hnew, hkept⟩ := hgrows.kept place _ hold
        refine hput.grows_of hgrows hnew ?_
        cases hkept <;> exact .file _ _

/-- What another deployment is at is settled, too. -/
theorem Finishes.underway_of_handles (h : Finishes files source target trace progress)
    (hhandles : Handles ⟨source, target⟩ trace' (begun files target) progress') :
    Underway files source target progress'.files := by
  refine ⟨h.underway.separated, h.underway.plain, hhandles.runs, ?_⟩
  have hgrows := h.grows .refl h.handles.runs.grows hhandles
  exact fun names hleads => h.underway.settled names (hleads.grows hgrows)

/-- Where one deployment finishes, another cannot fail at an entry. -/
theorem Finishes.not_stuck (h : Finishes files source target trace progress) {failure : Failure}
    (hunderway : Underway files source target progress'.files) :
    ¬ Stuck ⟨source, target⟩ (files.withDirectory target) progress' failure := by
  rintro ⟨front, name, listed, hlisted, hname, hprovided, hfail⟩
  obtain ⟨hmem, hdirectory⟩ := h.mem_of_listed hunderway hlisted hname
  obtain ⟨spot, hfind⟩ := (h.mem_iff.1 hmem).2
  have hstat := stat_eq_ok_iff.2 ⟨spot, hfind, rfl⟩
  obtain ⟨inner, after, hok⟩ := handleEntry_of_clear hunderway.plain hunderway.mirrors (h.clear hstat) hprovided
    (isDirectory_iff.1 hdirectory) hstat
  rw [hfail] at hok
  cases hok

theorem Finishes.confined (h : Finishes files source target trace progress) :
    Confined source target (files.withDirectory target) progress.files :=
  h.underway.mirrors.confined

/-- Below the target nothing changes where the source has nothing, and elsewhere nothing changes at all. -/
theorem Finishes.bare?_of_not_leads (h : Finishes files source target trace progress) {place : Location}
    (hplace : ∀ names, (files.withDirectory target).Below target names place → ¬ files.Leads (source.joinAll names)) :
    progress.files.bare? place = (files.withDirectory target).bare? place := by
  rcases h.confined.bare? place with hsame | ⟨names, hbelow, hleads, -⟩
  · exact hsame
  · exact absurd (h.underway.settled names hleads) (hplace names hbelow)

end Deployment

end ConsoleKit
