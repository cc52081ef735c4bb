import ConsoleKit.Proofs.Files.Ancestors
import ConsoleKit.Proofs.Files.Directories

/-!
# Paths that go up

The ancestors of a path are read off its spelling, and do not know what `..` leads to. Each of them is extended by the one
before it (`climbs_ancestors`): behind the ancestor the path has one more entry or one more `..`, and otherwise only dots. A
path that does not end in `..` has in its nearest ancestor a parent also in the eyes of the system, so that nothing is behind
an empty parent (`not_leads_of_empty`); and whatever it ends in, if a directory can be made at it then its parent leads
somewhere (`leads_of_makeDirectory`). A path that goes up cannot be made at all (`not_goesUp_of_makeDirectory`).
-/

namespace ConsoleKit

namespace Path

variable {absolute : Bool} {path parent : Path} {piece : Bytes} {before reversed cut : List Bytes} {rest : List (List Bytes)}
  {last : Segment}

/-! ## The nearest ancestor -/

/-- A path has one segment more than another, and apart from it only dots. The segment may also be a dot, of which nothing
at all is the parent. -/
structure Extends (parent path : Path) (last : Segment) : Prop where
  isPrefix : parent.spelling <+: path.spelling
  steps : ∃ dots dots', path.steps = parent.steps ++ dots ++ last :: dots' ∧
    (∀ step ∈ dots, step = .current) ∧ ∀ step ∈ dots', step = .current
  last : (∃ piece, last = .entry piece) ∨ last = .parent ∨ last = .current ∧ parent.isEmpty

theorem extends_join (path : Path) (name : FileName) : Extends path.trimmed (path.join name) (.entry name.bytes) := by
  obtain ⟨dots, hsteps, hdots⟩ := path.steps_trimmed
  refine ⟨path.spelling_trimmed_prefix.trans (spelling_prefix_join path name), ⟨dots, [], ?_, hdots, by simp⟩, .inl ⟨_, rfl⟩⟩
  rw [steps_join, hsteps]

/-- Each path extends the one after it. -/
inductive Climbs : Path → List Pieces → Prop where
  | nil (path : Path) : Climbs path []
  | cons {path : Path} {parent : Pieces} {above : List Pieces} {last : Segment} (hextends : Extends parent.path path last)
      (habove : Climbs parent.path above) : Climbs path (parent :: above)

theorem ofPiece?_inv {segment : Segment} (h : Segment.ofPiece? piece = some segment) :
    segment = .current ∧ piece = [dot] ∨ segment = .parent ∨ ∃ bytes, segment = .entry bytes := by
  unfold Segment.ofPiece? at h
  split at h <;> grind

theorem above_trimmed (absolute : Bool) (reversed : List Bytes) :
    Pieces.above absolute (Pieces.trimmed absolute reversed) = Pieces.above absolute reversed := by
  induction reversed with
  | nil => rfl
  | cons piece before ih =>
    cases hblank : Pieces.isBlank absolute piece before with
    | true => rw [above_of_isBlank hblank, Pieces.trimmed, if_pos hblank, ih]
    | false => rw [Pieces.trimmed, if_neg (by simp [hblank])]

theorem steps_of_isBlank (h : Pieces.isBlank absolute piece before = true) :
    ∀ step ∈ (⟨piece⟩ : Path).steps, step = .current := by
  have hpiece : piece = [] ∨ piece = [dot] := by
    simp only [Pieces.isBlank, Bool.or_eq_true, Bool.and_eq_true, beq_iff_eq] at h
    exact h.imp_right And.left
  rcases hpiece with rfl | rfl
  · simp [steps_nil]
  · simp [steps_dot]

/-- The nearest proper ancestor of a path is extended by it. The induction goes over the blank pieces at the end, up to the
last component. -/
theorem extends_of_above (hslash : ∀ piece ∈ reversed, slash ∉ piece) (h : Pieces.above absolute reversed = cut :: rest) :
    (∃ last, Extends (Pieces.path ⟨absolute, cut⟩) (Pieces.path ⟨absolute, reversed⟩) last) ∧ cut <:+ reversed ∧
      rest = Pieces.above absolute cut := by
  induction reversed with
  | nil => cases h
  | cons piece before ih =>
    have hpiece := hslash piece (.head _)
    cases hblank : Pieces.isBlank absolute piece before with
    | true =>
      rw [above_of_isBlank hblank] at h
      obtain ⟨⟨last, -, ⟨dots, dots', hsteps, hdots, hdots'⟩, hlast⟩, hsuffix, hrest⟩ :=
        ih (fun piece hmem => hslash piece (.tail _ hmem)) h
      have hsuffix' := hsuffix.trans (List.suffix_cons piece before)
      refine ⟨⟨last, spelling_path_prefix absolute hsuffix', ⟨dots, dots' ++ (⟨piece⟩ : Path).steps, ?_, hdots, ?_⟩, hlast⟩,
        hsuffix', hrest⟩
      · rw [steps_cons, hsteps, List.append_assoc, List.cons_append]
      · intro step hstep
        exact (List.mem_append.1 hstep).elim (hdots' step) (steps_of_isBlank hblank step)
    | false =>
      rw [above_of_not_isBlank hblank] at h
      obtain ⟨rfl, rfl⟩ := List.cons.inj h
      have hsuffix := (trimmed_suffix absolute before).trans (List.suffix_cons piece before)
      obtain ⟨dots, hsteps, hdots⟩ := steps_path_trimmed absolute before
      cases hstep : Segment.ofPiece? piece with
      | none =>
        rw [ofPiece?_eq_none_iff.1 hstep] at hblank
        cases hblank
      | some segment =>
        refine ⟨⟨segment, spelling_path_prefix absolute hsuffix, ⟨dots, [], ?_, hdots, by simp⟩, ?_⟩, hsuffix,
          (above_trimmed absolute before).symm⟩
        · rw [steps_cons, hsteps, steps_piece hpiece, hstep, Option.toList_some]
        · rcases ofPiece?_inv hstep with ⟨rfl, rfl⟩ | rfl | hentry
          · obtain ⟨rfl, rfl⟩ : absolute = false ∧ before = [] := by simpa [Pieces.isBlank] using hblank
            exact .inr (.inr ⟨rfl, rfl⟩)
          · exact .inr (.inl rfl)
          · exact .inl hentry

/-- The induction is on the number of pieces: an ancestor has fewer. -/
theorem climbs_above (hslash : ∀ piece ∈ reversed, slash ∉ piece) :
    Climbs (Pieces.path ⟨absolute, reversed⟩) ((Pieces.above absolute reversed).map (⟨absolute, ·⟩)) := by
  generalize habove : Pieces.above absolute reversed = above
  induction above generalizing reversed with
  | nil => exact .nil _
  | cons cut rest ih =>
    obtain ⟨⟨last, hextends⟩, hsuffix, rfl⟩ := extends_of_above hslash habove
    exact .cons hextends (ih (fun piece hmem => hslash piece (hsuffix.subset hmem)) rfl)

/-- **Each ancestor of a path is extended by the one before it.** -/
theorem climbs_ancestors (path : Path) : Climbs path path.pieces.ancestors := by
  have hclimbs : Climbs path.pieces.path path.pieces.ancestors := climbs_above path.slash_notMem_pieces
  rwa [path_pieces] at hclimbs

theorem Extends.isAbsolute_eq (h : Extends parent path last) (hne : ¬ parent.isEmpty) : parent.isAbsolute = path.isAbsolute :=
  isAbsolute_of_isPrefix h.isPrefix (by simpa [isEmpty] using hne)

/-! ## Going up -/

/-- Whether a path ends in `..`, or in `..` and dots. -/
def goesUp (path : Path) : Bool :=
  (path.steps.filter (· != .current)).getLast? == some .parent

theorem filter_dots {dots : List Segment} (hdots : ∀ step ∈ dots, step = .current) : dots.filter (· != .current) = [] :=
  List.filter_eq_nil_iff.2 fun step hstep => by simp [hdots step hstep]

/-- Whether a path goes up is seen from its last segment. -/
theorem Extends.goesUp_iff (h : Extends parent path last) : path.goesUp = true ↔ last = .parent := by
  obtain ⟨-, ⟨dots, dots', hsteps, hdots, hdots'⟩, hlast⟩ := h
  unfold goesUp
  rw [hsteps, List.filter_append, List.filter_append, List.filter_cons, filter_dots hdots, filter_dots hdots']
  rcases hlast with ⟨piece, rfl⟩ | rfl | ⟨rfl, hempty⟩
  · simp
  · simp
  · have hnil : parent.steps = [] := by
      obtain ⟨spelling⟩ := parent
      rw [show spelling = [] by simpa [isEmpty] using hempty]
      exact steps_nil
    simp [hnil]

theorem not_goesUp_of_forward (hforward : .parent ∉ path.steps) : path.goesUp = false := by
  refine Bool.eq_false_iff.2 fun h => hforward ?_
  exact (List.mem_filter.1 (List.mem_of_getLast? (beq_iff_eq.1 h))).1

theorem Extends.forward (h : Extends parent path last) (hforward : .parent ∉ path.steps) : .parent ∉ parent.steps := by
  obtain ⟨dots, dots', hsteps, -⟩ := h.steps
  rw [hsteps] at hforward
  exact fun hmem => hforward (List.mem_append_left _ (List.mem_append_left _ hmem))

/-- Without `..` neither a path nor one of its ancestors goes up. -/
theorem Climbs.not_goesUp {above : List Pieces} (h : Climbs path above) (hforward : .parent ∉ path.steps) :
    ∀ path' ∈ path :: above.map Pieces.path, path'.goesUp = false := by
  induction h with
  | nil path => simpa using not_goesUp_of_forward hforward
  | cons hextends _ ih =>
    rw [List.map_cons]
    exact List.forall_mem_cons.2 ⟨not_goesUp_of_forward hforward, ih (hextends.forward hforward)⟩

end Path

namespace FileSystem

open ConsoleKit.Path (Segment Extends)

variable {files made : FileSystem} {path parent : Path} {dots : List Segment} {last : Segment}
  {start base spot : Spot}

/-! ## Dots behind a path -/

/-- Dots behind the steps of a path lead nowhere else. -/
theorem follow_dots (hdots : ∀ step ∈ dots, step = .current)
    (h : files.follow .find linkLimit start (path.steps ++ dots) = .ok (.found spot)) :
    files.follow .find linkLimit start path.steps = .ok (.found spot) := by
  by_cases hnil : dots = []
  · rwa [hnil, List.append_nil] at h
  · obtain ⟨found, links, hfound, hrest⟩ := follow_prefix hnil h
    obtain ⟨hsame, -⟩ := (follow_stay_iff (fun step hstep => .inl (hdots step hstep)) hnil).1 hrest
    cases hsame
    exact hfound

/-- What can be made has a parent that leads somewhere. -/
theorem leads_of_makeDirectory (hextends : Extends parent path last) (hempty : ¬ parent.isEmpty)
    (hmake : files.makeDirectory path = .ok made) : files.Leads parent := by
  obtain ⟨vacancy, hvacancy, -⟩ := makeDirectory_eq_ok_iff.1 hmake
  obtain ⟨hcheck, before, piece, start, entries, hsteps, horigin, hfollow, -, -⟩ := vacancy_inv hvacancy
  obtain ⟨dots, dots', hsplit, hdots, hdots'⟩ := hextends.steps
  -- The path ends in an entry, so that there are no dots behind the segment after the parent.
  obtain rfl : before = parent.steps ++ dots := by
    rcases List.eq_nil_or_concat dots' with rfl | ⟨front, final, hfinal⟩
    · exact (List.append_inj' (hsteps.symm.trans hsplit) rfl).1
    · rw [List.concat_eq_append] at hfinal
      have hend : path.steps = (parent.steps ++ dots ++ last :: front) ++ [final] := by
        rw [hsplit, hfinal]
        simp
      have hentry := (List.append_inj' (hsteps.symm.trans hend) rfl).2
      rw [hdots' final (hfinal ▸ by simp)] at hentry
      cases hentry
  have hne : parent.spelling ≠ [] := by simpa [Path.isEmpty] using hempty
  have hdirectory : parent.directory = parent := if_neg hempty
  rw [← origin_congr (hextends.isAbsolute_eq hempty)] at horigin
  have hcheck' := checkPath_of_isPrefix hcheck hne hextends.isPrefix
  have hfind := find_directory (hdirectory.symm ▸ hcheck') horigin (follow_dots hdots hfollow) ⟨_, _, rfl⟩
  rw [hdirectory] at hfind
  exact ⟨_, hfind⟩

/-- Where a path goes up no directory can be made. -/
theorem not_goesUp_of_makeDirectory (hmake : files.makeDirectory path = .ok made) : path.goesUp = false := by
  obtain ⟨vacancy, hvacancy, -⟩ := makeDirectory_eq_ok_iff.1 hmake
  obtain ⟨-, before, piece, -, -, hsteps, -⟩ := vacancy_inv hvacancy
  unfold Path.goesUp
  rw [hsteps, List.filter_append]
  simp

theorem not_follow_empty {purpose : Purpose} {links : Nat} {piece : Bytes} {rest : List Segment} {mode : Mode}
    (hbase : base.node = .directory mode []) :
    files.follow purpose links base (.entry piece :: rest) ≠ .ok (.found spot) := by
  obtain ⟨location, node, removed⟩ := base
  cases hbase
  intro hfollow
  rcases follow_found_cons hfollow with ⟨next, hpasses⟩ | ⟨_, _, _, _, name, target, hdirectory, -, -, hlookup⟩
  · cases hpasses with
    | stay _ hsegment => simp at hsegment
    | entry _ hlookup _ => cases hlookup
  · cases hdirectory
    cases hlookup

/-- Nothing is behind an empty directory, unless the path goes up from there. -/
theorem not_leads_of_empty (hextends : Extends parent path last) (hup : path.goesUp = false) (hfind : files.find parent = .ok base) {mode : Mode}
    (hbase : base.node = .directory mode []) : ¬ files.Leads path := by
  rintro ⟨spot, hspot⟩
  obtain ⟨hcheck, start, horigin, hfollow⟩ := follow_of_find hfind
  obtain ⟨-, start', horigin', hfollow'⟩ := follow_of_find hspot
  have hempty := not_isEmpty_of_checkPath hcheck
  rw [origin_congr (hextends.isAbsolute_eq hempty), horigin', Except.ok.injEq] at horigin
  subst horigin
  obtain ⟨dots, dots', hsplit, hdots, -⟩ := hextends.steps
  obtain ⟨piece, rfl⟩ : ∃ piece, last = .entry piece := by
    rcases hextends.last with hentry | hlast | ⟨-, hnone⟩
    · exact hentry
    · rw [hextends.goesUp_iff.2 hlast] at hup
      cases hup
    · exact absurd hnone hempty
  rw [hsplit] at hfollow'
  obtain ⟨found, links, hfound, hrest⟩ := follow_prefix (by simp) hfollow'
  cases follow_unique hfollow (follow_dots hdots hfound)
  exact not_follow_empty hbase hrest

end FileSystem

end ConsoleKit
