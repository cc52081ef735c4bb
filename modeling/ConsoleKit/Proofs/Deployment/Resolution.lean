import ConsoleKit.Proofs.Deployment.Likeness
import ConsoleKit.Proofs.Deployment.Provision

/-!
# Sources in which every link leads somewhere

A source is *resolved* if every entry that one of its directories has leads somewhere, links followed (`Resolved`). Nothing
that a deployment adds can come to lead a link of such a source anywhere else. Whether it can be deployed is therefore known
from the beginning: it can if nothing is in the way of any of its entries (`finishes_of_clear`).

A deployment of another source into the same target changes nothing about it: it stays what it was
(`Finishes.alike_after`), separated from the target (`Finishes.separated_after`) and resolved (`Finishes.resolved_after`). If
the two sources do not disagree about what is a directory, nothing has come in its way, and it can be deployed next
(`Finishes.next`).
-/

namespace ConsoleKit

open FileSystem

namespace Deployment

variable {files made final : FileSystem} {order : ListingOrder} {source other target : Path} {front names : List FileName}
  {name : FileName} {entry : Entry} {trace trace' : List (List FileName)} {progress progress' : Progress} {place : Location}

/-- A source leads somewhere, and so does every entry that one of its directories has. No link dangles, none leads round in
a circle, and the system accepts the paths of all entries. -/
structure Resolved (files : FileSystem) (source : Path) : Prop where
  leads : files.Leads source
  entry : ∀ front listed name, files.list (source.joinAll front) = .ok listed → name ∈ listed →
    files.Leads (source.joinAll (front ++ [name]))

/-- Only directories have entries. -/
theorem isDirectory_of_leads_concat (hsource : files.Leads source) (h : files.Leads (source.joinAll (front ++ [name]))) :
    files.isDirectory (source.joinAll front) = true := by
  obtain ⟨spot, hfind⟩ := hsource
  have hempty := not_isEmpty_of_checkPath (walk_eq_ok_iff.1 (find_eq_ok_iff.1 hfind)).1
  rw [Path.joinAll_append] at h
  exact isDirectory_iff.2 (stat_of_joinAll (Path.not_isEmpty_joinAll hempty front) (by simp) h)

/-! ## While something is deployed -/

section Confined

variable (hsep : files.Separated source target) (hplain : (files.withDirectory target).PlainBelow target)
  (hconfined : Confined other target (files.withDirectory target) final)

include hsep hplain hconfined

/-- What the source has stays as it is, with its data. -/
theorem stat_of_confined (hstat : files.stat (source.joinAll names) = .ok entry) :
    final.stat (source.joinAll names) = .ok entry := by
  obtain ⟨spot, hfind, hentry⟩ := stat_eq_ok_iff.1 hstat
  obtain ⟨spot', hfind', -, -, hentry', -⟩ := source_kept_of_confined hsep hplain hconfined hfind
  exact stat_eq_ok_iff.2 ⟨spot', hfind', hentry'.trans hentry⟩

/-- A directory of the source has no other entries than before. -/
theorem mem_list_of_confined {listed listed' : List FileName} (hlist : files.list (source.joinAll names) = .ok listed)
    (hlist' : final.list (source.joinAll names) = .ok listed') : name ∈ listed' ↔ name ∈ listed := by
  obtain ⟨spot, hfind⟩ := leads_of_isDirectory (isDirectory_of_list hlist)
  rw [mem_listed_iff hsep hplain hconfined hlist' hfind, mem_list_iff hlist hfind, ne_eq, bare?_eq_none_iff, ← ne_eq,
    Option.ne_none_iff_exists']

/-- Nothing comes to lead anywhere in a resolved source. The induction is on the names: a directory to which the first of
them lead has the entry for the last one from the beginning. -/
theorem Resolved.settled (hresolved : Resolved files source) : Settled source files final := by
  have hgrows : files.Grows final := (withDirectory_madeAt files target).grows.trans hconfined.grows
  intro names hleads
  induction names using List.reverseRecOn with
  | nil => exact hresolved.leads
  | append_singleton front name ih =>
    have hdirectory' := isDirectory_of_leads_concat (hresolved.leads.grows hgrows) hleads
    have hdirectory := (isDirectory_eq hgrows (ih (leads_of_isDirectory hdirectory'))).symm.trans hdirectory'
    obtain ⟨listed, hlist⟩ := list_of_isDirectory hdirectory
    obtain ⟨listed', hlist'⟩ := list_of_isDirectory hdirectory'
    rw [Path.joinAll_append] at hleads
    have hname : name ∈ listed' := mem_list hleads hlist'
    exact hresolved.entry front listed name hlist ((mem_list_of_confined hsep hplain hconfined hlist hlist').1 hname)

theorem Resolved.of_confined (hresolved : Resolved files source) : Resolved final source := by
  have hgrows : files.Grows final := (withDirectory_madeAt files target).grows.trans hconfined.grows
  refine ⟨hresolved.leads.grows hgrows, ?_⟩
  intro front listed' name hlist' hname
  have hdirectory' := isDirectory_of_list hlist'
  have hleads := hresolved.settled hsep hplain hconfined front (leads_of_isDirectory hdirectory')
  have hdirectory := (isDirectory_eq hgrows hleads).symm.trans hdirectory'
  obtain ⟨listed, hlist⟩ := list_of_isDirectory hdirectory
  have hmem := (mem_list_of_confined hsep hplain hconfined hlist hlist').1 hname
  exact (hresolved.entry front listed name hlist hmem).grows hgrows

/-- A resolved source looks the same. -/
theorem Resolved.alike_of_confined (hresolved : Resolved files source) : Alike files source final source := by
  have hgrows : files.Grows final := (withDirectory_madeAt files target).grows.trans hconfined.grows
  constructor
  · intro names
    exact ⟨fun hleads => hleads.grows hgrows, hresolved.settled hsep hplain hconfined names⟩
  · intro names entry entry' hstat hstat'
    rw [stat_of_confined hsep hplain hconfined hstat, Except.ok.injEq] at hstat'
    rw [hstat']
    exact .same entry'

/-- What the target reaches is no place that the source has reached from the beginning. -/
theorem not_same_of_confined {a a' b : Spot} (hreached : files.Reaches source a) (hbecomes : Spot.Becomes files final a a')
    (hreached' : final.Reaches target b) : ¬ a'.Same b := by
  have hplain' := hconfined.plainBelow hplain
  have hgrows : files.Grows final := (withDirectory_madeAt files target).grows.trans hconfined.grows
  obtain ⟨names, hfind⟩ := hreached'
  by_cases hne : names = []
  · -- The target itself is reached, at a place that it has had since it was made.
    subst hne
    obtain ⟨base, hbase⟩ := hconfined.find_target hfind
    obtain ⟨base', hbase', hsame⟩ := find_grows hconfined.grows hbase
    have hfind' : final.find target.directory = .ok b := hfind
    rw [hbase', Except.ok.injEq] at hfind'
    subst hfind'
    have hnot := hsep.not_same a base hreached ⟨[], hbase⟩
    rintro (⟨hplace, hlive⟩ | ⟨id, hid, hid'⟩)
    · refine hnot (.inl ⟨?_, ?_⟩)
      · exact hbecomes.location_eq.symm.trans (hplace.trans hsame.location_eq)
      · exact hbecomes.removed_eq.symm.trans (hlive.trans hsame.removed_eq)
    · exact hnot (.inr ⟨id, hbecomes.shared hgrows hid, hsame.shared hconfined.grows hid'⟩)
  · rw [Path.directory, if_neg (by simp [Path.isEmpty_joinAll target hne])] at hfind
    obtain ⟨place, hbelow, ⟨node, hnode, harrival⟩ | ⟨_, _, _, _, harrival⟩⟩ :=
      below_of_walk hplain'.linkFreeBelow hne (find_eq_ok_iff.1 hfind)
    · cases harrival
      rintro (⟨hplace, hlive⟩ | ⟨id, -, hid⟩)
      · have hplace' : place = a.location := hplace.symm.trans hbecomes.location_eq
        rw [hbecomes.removed_eq] at hlive
        obtain ⟨node', hnode'⟩ := (withDirectory_madeAt files target).grows.node? (hbecomes.self.node? hlive)
        exact Apart.not_below hsep.not_same hplain hreached hlive hnode' (hplace' ▸ hconfined.below hbelow)
      · exact (hbelow.plain hplain' hnode).2 id hid
    · cases harrival

/-- A source from which nothing more can be reached is still separated from the target. -/
theorem Resolved.separated_of_confined (hresolved : Resolved files source) (hprovided : Provided final target) :
    final.Separated source target := by
  have hgrows : files.Grows final := (withDirectory_madeAt files target).grows.trans hconfined.grows
  have hsame : final.withDirectory target = final := withDirectory_of_provided hprovided
  constructor
  · rw [hsame]
    intro a b hreached hreached'
    obtain ⟨names, hfind⟩ := hreached
    -- What is reached in the end was reached at first.
    have hfind' : final.find (source.joinAll names) = .ok a := by
      by_cases hne : names = []
      · obtain ⟨start, hstart⟩ := hresolved.leads.grows hgrows
        subst hne
        rwa [Path.joinAll_nil, directory_of_find hstart] at hfind
      · rwa [Path.directory, if_neg (by simp [Path.isEmpty_joinAll source hne])] at hfind
    obtain ⟨spot, hspot⟩ := hresolved.settled hsep hplain hconfined names ⟨a, hfind'⟩
    obtain ⟨spot', hspot', hbecomes⟩ := find_grows hgrows hspot
    rw [hfind', Except.ok.injEq] at hspot'
    subst hspot'
    exact not_same_of_confined hsep hplain hconfined (reaches_of_find hspot) hbecomes hreached'
  · rintro a - - ⟨-, name, hnone, hsome⟩
    rw [hsame] at hsome
    exact hsome hnone

end Confined

/-! ## Whether a resolved source can be deployed -/

section Resolved

variable (hsep : files.Separated source target) (hplain : (files.withDirectory target).PlainBelow target)
  (hresolved : Resolved files source)

include hsep hplain hresolved

theorem underway_of_runs (hrun : Runs source target (files.withDirectory target) final) :
    Underway files source target final :=
  ⟨hsep, hplain, hrun, hresolved.settled hsep hplain (confined_of_runs hplain hrun)⟩

/-- A deployment that succeeds has finished. -/
theorem finishes_of_ok {report : Report} (h : (files.deploy order source target).result = .ok report) :
    ∃ trace progress, Finishes files source target trace progress ∧
      provideDirectory target ⟨files, ⟨0, 0⟩⟩ = .ok () (begun files target) ∧
      files.deploy order source target = ⟨.ok progress.report, progress.files⟩ := by
  have hgoes := deploy_goes files order source target
  generalize files.deploy order source target = outcome at hgoes h
  cases hgoes with
  | noSource _ => cases h
  | noTarget _ _ => cases h
  | stuck _ _ _ _ => cases h
  | done hsource hprovide hhandles hcomplete =>
    have hunderway := underway_of_runs hsep hplain hresolved hhandles.runs
    exact ⟨_, _, ⟨hunderway, hsource, hhandles, hcomplete⟩, hprovide, rfl⟩

/-- A deployment succeeds if its target can be provided and nothing is in the way of any entry of the source. -/
theorem finishes_of_clear (order : ListingOrder) (hsource : files.isDirectory source = true)
    (hprovide : provideDirectory target ⟨files, ⟨0, 0⟩⟩ = .ok () (begun files target))
    (hclear : ∀ front name entry, files.stat (source.joinAll (front ++ [name])) = .ok entry →
      Clear (files.withDirectory target) target front name entry) :
    ∃ trace progress, Finishes files source target trace progress ∧
      files.deploy order source target = ⟨.ok progress.report, progress.files⟩ := by
  have hgoes := deploy_goes files order source target
  generalize files.deploy order source target = outcome at hgoes
  cases hgoes with
  | noSource hnot =>
    rw [hsource] at hnot
    cases hnot
  | noTarget _ hfail =>
    rw [hprovide] at hfail
    cases hfail
  | done _ _ hhandles hcomplete =>
    have hunderway := underway_of_runs hsep hplain hresolved hhandles.runs
    exact ⟨_, _, ⟨hunderway, hsource, hhandles, hcomplete⟩, rfl⟩
  | stuck _ _ hhandles hstuck =>
    -- An entry at which the deployment fails was listed, so that it leads somewhere, and nothing is in its way.
    obtain ⟨front, name, listed, ⟨middle, hrun, -, hlist⟩, hname, hprovided, hfail⟩ := hstuck
    have hunderway := underway_of_runs hsep hplain hresolved hhandles.runs
    have hmiddle := underway_of_runs hsep hplain hresolved hrun
    have hdirectory := isDirectory_of_list hlist
    have hfront := hmiddle.settled front (leads_of_isDirectory hdirectory)
    have hdirectory' := (isDirectory_eq hmiddle.grows hfront).symm.trans hdirectory
    obtain ⟨listed', hlist'⟩ := list_of_isDirectory hdirectory'
    have hname' := (mem_list_of_confined hsep hplain hmiddle.mirrors.confined hlist' hlist).1 hname
    obtain ⟨spot, hfind⟩ := hresolved.entry front listed' name hlist' hname'
    have hstat := stat_eq_ok_iff.2 ⟨spot, hfind, rfl⟩
    obtain ⟨inner, after, hok⟩ := handleEntry_of_clear hplain hunderway.mirrors (hclear front name _ hstat) hprovided
      (isDirectory_iff.1 hdirectory') hstat
    rw [hfail] at hok
    cases hok

end Resolved

/-! ## What is in the way after a deployment -/

/-- What was in nobody's way after one deployment was in nobody's way before it. -/
theorem Clear.of_confined (h : Clear final target front name entry) (hconfined : Confined other target made final) :
    Clear made target front name entry := by
  obtain ⟨base', hbase', hlive, haround, hfile⟩ := h.places
  obtain ⟨base, hbase⟩ := hconfined.find_target hbase'
  obtain ⟨base'', hbase'', hbecomes⟩ := find_grows hconfined.grows hbase
  rw [hbase', Except.ok.injEq] at hbase''
  subst hbase''
  rw [hbecomes.location_eq] at haround hfile
  refine ⟨h.kind, h.accepted, base, hbase, hbecomes.removed_eq.symm.trans hlive, ?_, ?_⟩
  · intro node hnode
    obtain ⟨node', hnode'⟩ := hconfined.grows.node? hnode
    obtain ⟨mode, entries, rfl⟩ := haround node' hnode'
    exact hconfined.grows.directory_of hnode hnode'
  · intro hdata mode entries hdirectory
    obtain ⟨entries', hdirectory'⟩ := hconfined.grows.directory hdirectory
    exact hfile hdata mode entries' hdirectory'

/-- What is new at a place has come there from the source. -/
theorem Finishes.mirrored_of_new (h : Finishes files source target trace progress) {place : Location} {node : Node}
    (hnone : (files.withDirectory target).node? place = none) (hnode : progress.files.node? place = some node) :
    ∃ names, (files.withDirectory target).Below target names place ∧ files.Leads (source.joinAll names) ∧
      Mirrored files source target names place progress.files := by
  have hnew : progress.files.bare? place ≠ (files.withDirectory target).bare? place := by
    rw [bare?_of_node? hnode, bare?_eq_none_iff.2 hnone]
    simp
  rcases h.confined.bare? place with hsame | ⟨names, hbelow, hleads, -⟩
  · exact absurd hsame hnew
  · have hleads' := h.underway.settled names hleads
    refine ⟨names, hbelow, hleads', ?_⟩
    rcases h.place (h.mem_iff.2 ⟨hbelow.ne_nil, hleads'⟩) hbelow with ⟨hkept, -, -⟩ | hmirrored
    · exact absurd hkept hnew
    · exact hmirrored

section Kinds

variable (h : Finishes files other target trace progress)
  (hkind : ∀ names, files.Leads (source.joinAll names) → files.Leads (other.joinAll names) →
    files.isDirectory (source.joinAll names) = files.isDirectory (other.joinAll names))

include h hkind

/-- If two sources have directories at the same of their common paths, then what one has newly brought to the place of an
entry of the other is a directory if that entry is. -/
theorem Finishes.new_directory_iff {base : Spot} {node : Node}
    (hbase : (files.withDirectory target).find target.directory = .ok base) (hleads : files.Leads (source.joinAll names))
    (hnone : (files.withDirectory target).node? (names.reverse ++ base.location) = none)
    (hnode : progress.files.node? (names.reverse ++ base.location) = some node) :
    (∃ mode entries, node = .directory mode entries) ↔ files.isDirectory (source.joinAll names) = true := by
  obtain ⟨names', hbelow, hleads', hmirrored⟩ := h.mirrored_of_new hnone hnode
  obtain ⟨base', hbase', -, hplace⟩ := hbelow.base
  rw [hbase, Except.ok.injEq] at hbase'
  subst hbase'
  obtain rfl : names = names' := List.reverse_inj.1 (List.append_cancel_right hplace)
  rw [hkind names hleads hleads']
  cases hmirrored with
  | directory hsource _ _ hnew =>
    rw [bare?_of_node? hnode] at hnew
    cases node <;> cases hnew
    exact ⟨fun _ => isDirectory_iff.2 ⟨_, hsource⟩, fun _ => ⟨_, _, rfl⟩⟩
  | file hsource _ hnew =>
    rw [bare?_of_node? hnode] at hnew
    cases node <;> cases hnew
    constructor
    · rintro ⟨mode, entries, heq⟩
      cases heq
    · intro hdirectory
      exact absurd hdirectory (not_isDirectory_of_file hsource)

/-- A deployment puts nothing in the way of an entry of such another source, or of the same. -/
theorem Finishes.clear_after (hfront : files.isDirectory (source.joinAll front) = true)
    (hstat : files.stat (source.joinAll (front ++ [name])) = .ok entry)
    (hclear : Clear (files.withDirectory target) target front name entry) : Clear progress.files target front name entry := by
  have hconfined := h.confined
  obtain ⟨base, hbase, hlive, haround, hfile⟩ := hclear.places
  obtain ⟨base', hbase', hbecomes⟩ := find_grows hconfined.grows hbase
  refine ⟨hclear.kind, hclear.accepted, base', hbase', hbecomes.removed_eq.trans hlive, ?_, ?_⟩
  · rw [hbecomes.location_eq]
    intro node hnode
    cases hmade : (files.withDirectory target).node? (front.reverse ++ base.location) with
    | some old =>
      obtain ⟨mode, entries, rfl⟩ := haround old hmade
      obtain ⟨entries', hnode'⟩ := hconfined.grows.directory hmade
      rw [hnode, Option.some.injEq] at hnode'
      exact ⟨mode, entries', hnode'⟩
    | none => exact (h.new_directory_iff hkind hbase (leads_of_isDirectory hfront) hmade hnode).2 hfront
  · rw [hbecomes.location_eq]
    rintro ⟨data, rfl⟩ mode entries hdirectory
    cases hmade : (files.withDirectory target).node? (name :: (front.reverse ++ base.location)) with
    | some old =>
      obtain ⟨mode', entries', rfl⟩ := hconfined.grows.directory_of hmade hdirectory
      exact hfile ⟨data, rfl⟩ mode' entries' hmade
    | none =>
      have hplace : name :: (front.reverse ++ base.location) = (front ++ [name]).reverse ++ base.location := by simp
      rw [hplace] at hmade hdirectory
      have hsource := (h.new_directory_iff hkind hbase (leads_of_stat hstat) hmade hdirectory).1 ⟨mode, entries, rfl⟩
      exact absurd hsource (not_isDirectory_of_file hstat)

end Kinds

/-! ## One deployment after another -/

theorem begun_of_provided (h : Provided files target) : begun files target = ⟨files, ⟨0, 0⟩⟩ := by
  have hzero : missingCount files target target.pieces.ancestors = 0 := missingCount_eq_zero.2 h
  rw [begun, withDirectory_of_provided h, hzero]

/-- The target of a deployment that has finished is there. -/
theorem Finishes.provided (h : Finishes files source target trace progress)
    (hprovide : provideDirectory target ⟨files, ⟨0, 0⟩⟩ = .ok () (begun files target)) : Provided progress.files target := by
  have hmeets := provideDirectory_meets target ⟨files, ⟨0, 0⟩⟩
  rw [hprovide] at hmeets
  exact (hmeets.success () rfl).grows h.handles.runs.grows

section After

variable (h : Finishes files other target trace progress) (hprovided : Provided progress.files target)

include h in
theorem Finishes.resolved_after (hsep : files.Separated source target) (hresolved : Resolved files source) :
    Resolved progress.files source :=
  hresolved.of_confined hsep h.underway.plain h.confined

include h in
theorem Finishes.alike_after (hsep : files.Separated source target) (hresolved : Resolved files source) :
    Alike files source progress.files source :=
  hresolved.alike_of_confined hsep h.underway.plain h.confined

include h hprovided

theorem Finishes.plain_after : (progress.files.withDirectory target).PlainBelow target := by
  rw [withDirectory_of_provided hprovided]
  exact h.confined.plainBelow h.underway.plain

theorem Finishes.separated_after (hsep : files.Separated source target) (hresolved : Resolved files source) :
    progress.files.Separated source target :=
  hresolved.separated_of_confined hsep h.underway.plain h.confined hprovided

/-- A source that could have been deployed at first can be deployed next. -/
theorem Finishes.next (order : ListingOrder) (hsep : files.Separated source target) (hresolved : Resolved files source)
    (hsource : files.isDirectory source = true)
    (hkind : ∀ names, files.Leads (source.joinAll names) → files.Leads (other.joinAll names) →
      files.isDirectory (source.joinAll names) = files.isDirectory (other.joinAll names))
    (hclear : ∀ front name entry, files.stat (source.joinAll (front ++ [name])) = .ok entry →
      Clear (files.withDirectory target) target front name entry) :
    ∃ trace' progress', Finishes progress.files source target trace' progress' ∧
      progress.files.deploy order source target = ⟨.ok progress'.report, progress'.files⟩ := by
  have halike := h.alike_after hsep hresolved
  refine finishes_of_clear (h.separated_after hprovided hsep hresolved) (h.plain_after hprovided)
    (h.resolved_after hsep hresolved) order (halike.isDirectory_source hsource) ?_ ?_
  · rw [begun_of_provided hprovided]
    exact provideDirectory_of_provided hprovided
  · intro front name entry' hstat'
    rw [withDirectory_of_provided hprovided]
    obtain ⟨entry, hstat, hentry⟩ := halike.symm.stat hstat'
    have hfront := isDirectory_of_leads_concat hresolved.leads (leads_of_stat hstat)
    exact (h.clear_after hkind hfront hstat (hclear front name entry hstat)).alike hentry.symm

variable (h' : Finishes progress.files source target trace' progress')

include h'

/-- What is at a place below the target after two deployments. -/
theorem Finishes.bare?_after (hsep : files.Separated source target) (hresolved : Resolved files source)
    (hbelow : (files.withDirectory target).Below target names place) :
    progress'.files.bare? place = brought (brought ((files.withDirectory target).bare? place)
      (files.entryAt (other.joinAll names)) (progress'.files.bare? place.tail)) (files.entryAt (source.joinAll names))
      (progress'.files.bare? place.tail) := by
  have hsame : progress.files.withDirectory target = progress.files := withDirectory_of_provided hprovided
  have hbelow' : (progress.files.withDirectory target).Below target names place := by
    rw [hsame]
    exact hbelow.grows h.confined.grows
  have hgrows : progress.files.Grows progress'.files := h'.underway.grows
  rw [h'.bare?_eq_brought (.refl _) hbelow', hsame, h.bare?_eq_brought hgrows hbelow,
    (h.alike_after hsep hresolved).brought_eq]

/-- Elsewhere two deployments leave everything as it is. -/
theorem Finishes.bare?_elsewhere (hplace : ∀ names, ¬ (files.withDirectory target).Below target names place) :
    progress'.files.bare? place = (files.withDirectory target).bare? place := by
  have hsame : progress.files.withDirectory target = progress.files := withDirectory_of_provided hprovided
  have hplace' : ∀ names, (progress.files.withDirectory target).Below target names place →
      ¬ progress.files.Leads (source.joinAll names) := by
    intro names hbelow
    rw [hsame] at hbelow
    exact absurd (h.confined.below hbelow) (hplace names)
  rw [h'.bare?_of_not_leads hplace', hsame, h.bare?_of_not_leads fun names hbelow => absurd hbelow (hplace names)]

/-- The files with several names and the working directory are the same after two deployments. -/
theorem Finishes.kept_after : progress'.files.shared = (files.withDirectory target).shared ∧
    progress'.files.workingDirectory = (files.withDirectory target).workingDirectory := by
  have hconfined := h'.confined
  rw [withDirectory_of_provided hprovided] at hconfined
  exact ⟨hconfined.shared.trans h.confined.shared, hconfined.workingDirectory.trans h.confined.workingDirectory⟩

end After

end Deployment

end ConsoleKit
