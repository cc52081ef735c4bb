import ConsoleKit.Proofs.Files.Dots
import ConsoleKit.Proofs.Files.Forward
import Mathlib.Data.List.Forall2
import Mathlib.Data.List.Infix

/-!
# Spellings of one path

Paths are the same if they have the same components: slashes in a row, a slash at the end, and dots count for nothing, but for
a dot at the beginning. They lead the same way, and so do their ancestors, one by one. What differs is how they end: two
spellings of which both or none ask for a directory, and both or none end in a dot, are interchangeable in every call.
-/

namespace ConsoleKit

namespace Path

variable {absolute : Bool} {path path' : Path} {piece : Bytes} {before reversed reversed' : List Bytes}

/-! ## Components -/

/-- The pieces that are components, the last one first. -/
def Pieces.components (absolute : Bool) : List Bytes → List Bytes
  | [] => []
  | piece :: before =>
    if isBlank absolute piece before then components absolute before else piece :: components absolute before

/-- Two spellings of one path: they have the same components. -/
def Same (path path' : Path) : Prop :=
  path.pieces.absolute = path'.pieces.absolute ∧
    Pieces.components path.pieces.absolute path.pieces.reversed =
      Pieces.components path'.pieces.absolute path'.pieces.reversed

instance (path path' : Path) : Decidable (path.Same path') :=
  inferInstanceAs (Decidable (_ ∧ _))

theorem Same.symm (h : path.Same path') : path'.Same path :=
  ⟨h.1.symm, h.2.symm⟩

theorem components_of_isBlank (h : Pieces.isBlank absolute piece before = true) :
    Pieces.components absolute (piece :: before) = Pieces.components absolute before := by
  rw [Pieces.components, if_pos h]

theorem components_of_not_isBlank (h : Pieces.isBlank absolute piece before = false) :
    Pieces.components absolute (piece :: before) = piece :: Pieces.components absolute before := by
  rw [Pieces.components, if_neg (by simp [h])]

theorem components_trimmed (absolute : Bool) (reversed : List Bytes) :
    Pieces.components absolute (Pieces.trimmed absolute reversed) = Pieces.components absolute reversed := by
  induction reversed with
  | nil => rfl
  | cons piece before ih =>
    unfold Pieces.trimmed
    split
    · rename_i hblank
      rw [components_of_isBlank hblank, ih]
    · rfl

/-- The way that a path leads is spelled by its components. -/
theorem way_path (absolute : Bool) (reversed : List Bytes) : (Pieces.path ⟨absolute, reversed⟩).way =
    (Pieces.components absolute reversed).reverse.flatMap fun piece => (⟨piece⟩ : Path).way := by
  induction reversed with
  | nil => simp [way, steps_path, Pieces.components, undotted]
  | cons piece before ih =>
    rw [way, steps_cons, undotted_append]
    cases hblank : Pieces.isBlank absolute piece before with
    | true =>
      have hdots : undotted (⟨piece⟩ : Path).steps = [] := filter_dots (steps_of_isBlank hblank)
      rw [components_of_isBlank hblank, hdots, List.append_nil]
      exact ih
    | false =>
      rw [components_of_not_isBlank hblank, List.reverse_cons, List.flatMap_append, ← ih]
      simp [way]

theorem Same.way_eq (h : path.Same path') : path.way = path'.way := by
  have hway := way_path path.pieces.absolute path.pieces.reversed
  have hway' := way_path path'.pieces.absolute path'.pieces.reversed
  rw [← h.2] at hway'
  exact (congrArg way path.path_pieces).symm.trans ((hway.trans hway'.symm).trans (congrArg way path'.path_pieces))

theorem pieces_absolute_eq (path : Path) : path.pieces.absolute = path.isAbsolute := by
  obtain ⟨spelling⟩ := path
  cases spelling with
  | nil => rfl
  | cons first rest =>
    unfold pieces isAbsolute
    by_cases h : first = slash <;> simp [h]

theorem Same.isAbsolute_eq (h : path.Same path') : path.isAbsolute = path'.isAbsolute := by
  rw [← pieces_absolute_eq, ← pieces_absolute_eq, h.1]

/-- Where no piece is a component, the first one is empty. -/
theorem getLast?_of_components (h : Pieces.components false reversed = []) : reversed = [] ∨ reversed.getLast? = some [] := by
  induction reversed with
  | nil => exact .inl rfl
  | cons piece before ih =>
    cases hblank : Pieces.isBlank false piece before with
    | false =>
      rw [components_of_not_isBlank hblank] at h
      cases h
    | true =>
      rw [components_of_isBlank hblank] at h
      refine .inr ?_
      rcases ih h with rfl | hlast
      · simpa [Pieces.isBlank] using hblank
      · rw [List.getLast?_cons, hlast]
        rfl

/-- A relative path has a component, unless it has no spelling. -/
theorem isEmpty_of_components (habsolute : path.pieces.absolute = false)
    (h : Pieces.components path.pieces.absolute path.pieces.reversed = []) : path.isEmpty := by
  rw [habsolute] at h
  have hspelling : path.spelling = [slash].intercalate path.pieces.reversed.reverse := by
    rcases pieces_eq path with ⟨htrue, -⟩ | ⟨-, hspelling⟩
    · rw [habsolute] at htrue
      cases htrue
    · exact hspelling
  rcases getLast?_of_components h with hnil | hlast
  · rw [hnil] at hspelling
    simpa [isEmpty] using hspelling
  · obtain ⟨front, hfront⟩ := List.getLast?_eq_some_iff.1 hlast
    rw [hfront, List.reverse_append, List.reverse_singleton, List.singleton_append] at hspelling
    cases hrest : front.reverse with
    | nil =>
      rw [hrest] at hspelling
      simpa [isEmpty] using hspelling
    | cons piece pieces =>
      -- An empty piece with others after it is in front of a slash.
      rw [hrest, List.intercalate_cons_cons, List.nil_append, List.singleton_append] at hspelling
      have habsolute' : path.isAbsolute = true := by rw [isAbsolute, hspelling, List.head?_cons]; rfl
      rw [← pieces_absolute_eq, habsolute] at habsolute'
      cases habsolute'

/-- Only the path without a spelling is the same as that path. -/
theorem Same.eq_of_isEmpty (h : path.Same path') (hempty : path.isEmpty) : path' = path := by
  obtain ⟨spelling⟩ := path
  obtain rfl : spelling = [] := by simpa [isEmpty] using hempty
  have hempty' : path'.isEmpty := isEmpty_of_components h.1.symm h.2.symm
  obtain ⟨spelling'⟩ := path'
  obtain rfl : spelling' = [] := by simpa [isEmpty] using hempty'
  rfl

theorem Same.join (h : path.Same path') (name : FileName) : (path.join name).Same (path'.join name) := by
  have hcomponents : ∀ path : Path, Pieces.components (path.join name).pieces.absolute (path.join name).pieces.reversed =
      name.bytes :: Pieces.components path.pieces.absolute path.pieces.reversed := by
    intro path
    obtain ⟨before, hpieces, hbefore⟩ := pieces_join path name
    rw [hpieces, components_of_not_isBlank (isBlank_bytes _ name before)]
    rcases hbefore with hbefore | hbefore
    · rw [hbefore]
    · rw [hbefore, components_of_isBlank rfl]
  refine ⟨?_, by rw [hcomponents, hcomponents, h.2]⟩
  rw [pieces_absolute_eq, pieces_absolute_eq, isAbsolute_join, isAbsolute_join, h.isAbsolute_eq]

theorem Same.joinAll (h : path.Same path') (names : List FileName) : (path.joinAll names).Same (path'.joinAll names) := by
  induction names generalizing path path' with
  | nil => exact h
  | cons name names ih => exact ih (h.join name)

/-! ## Interchangeable paths -/

/-- Two paths at which a directory is made in the same way. -/
structure MadeAlike (path path' : Path) : Prop where
  checked : FileSystem.checkPath path = FileSystem.checkPath path'
  isAbsolute : path.isAbsolute = path'.isAbsolute
  way : path.way = path'.way
  endsInDot : path.endsInDot = path'.endsInDot

/-- Two paths that no call can tell from each other. -/
structure Interchangeable (path path' : Path) : Prop extends MadeAlike path path' where
  asksForDirectory : path.asksForDirectory = path'.asksForDirectory

theorem Interchangeable.refl (path : Path) : path.Interchangeable path :=
  ⟨⟨rfl, rfl, rfl, rfl⟩, rfl⟩

theorem isEmpty_iff_checkPath : path.isEmpty = true ↔ FileSystem.checkPath path = .error .notFound := by
  obtain ⟨spelling⟩ := path
  cases spelling with
  | nil => exact iff_of_true rfl rfl
  | cons byte bytes =>
    refine iff_of_false (by simp [isEmpty]) fun hcheck => ?_
    simp only [FileSystem.checkPath, isEmpty, List.isEmpty_cons] at hcheck
    split_ifs at hcheck <;> contradiction

theorem MadeAlike.isEmpty (h : path.MadeAlike path') : path.isEmpty = path'.isEmpty := by
  rw [Bool.eq_iff_iff, isEmpty_iff_checkPath, isEmpty_iff_checkPath, h.checked]

theorem Same.madeAlike (h : path.Same path') (hcheck : FileSystem.checkPath path = .ok ())
    (hcheck' : FileSystem.checkPath path' = .ok ()) (hdot : path.endsInDot = path'.endsInDot) : path.MadeAlike path' :=
  ⟨hcheck.trans hcheck'.symm, h.isAbsolute_eq, h.way_eq, hdot⟩

/-- A path joined to a name ends in the name. -/
theorem asksForDirectory_join (path : Path) (name : FileName) :
    (path.join name).endsInDot = false ∧ (path.join name).asksForDirectory = false := by
  have hdot : (path.join name).endsInDot = false := by simp [endsInDot, lastStep, steps_join]
  exact ⟨hdot, by rw [asksForDirectory, hdot, endsInSlash_join, Bool.or_false]⟩

/-- What is joined to two spellings of one path is interchangeable. -/
theorem Same.interchangeable_join {name : FileName} (h : path.Same path') (hcheck : FileSystem.checkPath (path.join name) = .ok ())
    (hcheck' : FileSystem.checkPath (path'.join name) = .ok ()) : (path.join name).Interchangeable (path'.join name) := by
  obtain ⟨hdot, hasks⟩ := asksForDirectory_join path name
  obtain ⟨hdot', hasks'⟩ := asksForDirectory_join path' name
  exact ⟨(h.join name).madeAlike hcheck hcheck' (hdot.trans hdot'.symm), hasks.trans hasks'.symm⟩

/-! ## Ancestors -/

theorem components_above (absolute : Bool) (reversed : List Bytes) :
    (Pieces.above absolute reversed).map (Pieces.components absolute) =
      (Pieces.components absolute reversed).tails.tail := by
  induction reversed with
  | nil => rfl
  | cons piece before ih =>
    cases hblank : Pieces.isBlank absolute piece before with
    | true => rw [above_of_isBlank hblank, components_of_isBlank hblank, ih]
    | false =>
      rw [above_of_not_isBlank hblank, components_of_not_isBlank hblank, List.map_cons, ih, components_trimmed]
      cases Pieces.components absolute before <;> rfl

theorem trimmed_of_not_isBlank (h : Pieces.isBlank absolute piece before = false) :
    Pieces.trimmed absolute (piece :: before) = piece :: before := by
  rw [Pieces.trimmed, if_neg (by simp [h])]

theorem trimmed_trimmed (absolute : Bool) (reversed : List Bytes) :
    Pieces.trimmed absolute (Pieces.trimmed absolute reversed) = Pieces.trimmed absolute reversed := by
  cases htrimmed : Pieces.trimmed absolute reversed with
  | nil => rfl
  | cons piece before => exact trimmed_of_not_isBlank (not_isBlank_of_trimmed htrimmed)

theorem trimmed_of_mem_above {cut : List Bytes} (h : cut ∈ Pieces.above absolute reversed) :
    cut <:+ reversed ∧ Pieces.trimmed absolute cut = cut := by
  induction reversed with
  | nil => cases h
  | cons piece before ih =>
    have hbefore := List.suffix_cons piece before
    cases hblank : Pieces.isBlank absolute piece before with
    | true =>
      rw [above_of_isBlank hblank] at h
      exact (ih h).imp_left fun hsuffix => hsuffix.trans hbefore
    | false =>
      rw [above_of_not_isBlank hblank] at h
      rcases List.mem_cons.1 h with rfl | h
      · exact ⟨(trimmed_suffix absolute before).trans hbefore, trimmed_trimmed absolute before⟩
      · exact (ih h).imp_left fun hsuffix => hsuffix.trans hbefore

/-- A path that ends in a component other than a dot asks for nothing. -/
theorem asksForDirectory_path (hslash : ∀ piece' ∈ piece :: before, slash ∉ piece')
    (hblank : Pieces.isBlank absolute piece before = false) (hdot : piece ≠ [dot]) :
    (Pieces.path ⟨absolute, piece :: before⟩).endsInDot = false ∧
      (Pieces.path ⟨absolute, piece :: before⟩).asksForDirectory = false := by
  have hends : (Pieces.path ⟨absolute, piece :: before⟩).endsInSlash = false := by
    have htrimmed := trimmed_of_not_isBlank hblank
    rw [← htrimmed]
    exact endsInSlash_path_trimmed hslash (by simp [htrimmed])
  have hendsInDot : (Pieces.path ⟨absolute, piece :: before⟩).endsInDot = false := by
    cases hstep : Segment.ofPiece? piece with
    | none =>
      rw [ofPiece?_eq_none_iff.1 hstep] at hblank
      cases hblank
    | some segment =>
      have hsegment : segment ≠ .current := by
        rintro rfl
        rcases ofPiece?_inv hstep with ⟨-, hpiece⟩ | hparent | ⟨_, hentry⟩
        · exact hdot hpiece
        · cases hparent
        · cases hentry
      simp [endsInDot, lastStep, steps_cons, steps_piece (hslash piece (.head _)), hstep, hsegment]
  exact ⟨hendsInDot, by rw [asksForDirectory, hends, hendsInDot]; rfl⟩

theorem spelling_ne_nil_of_asksForDirectory (h : path.asksForDirectory = false) : path.spelling ≠ [] := by
  intro hnil
  rw [asksForDirectory, endsInDot, lastStep, steps_of_isEmpty (by simp [isEmpty, hnil])] at h
  simp at h

/-- Two trimmed spellings are equal, or end in the same component. -/
theorem trimmed_cases (htrimmed : Pieces.trimmed absolute reversed = reversed)
    (htrimmed' : Pieces.trimmed absolute reversed' = reversed')
    (h : Pieces.components absolute reversed = Pieces.components absolute reversed') : reversed = reversed' ∨
      ∃ piece before before', reversed = piece :: before ∧ reversed' = piece :: before' ∧ piece ≠ [dot] ∧
        Pieces.isBlank absolute piece before = false ∧ Pieces.isBlank absolute piece before' = false := by
  cases reversed with
  | nil =>
    cases reversed' with
    | nil => exact .inl rfl
    | cons piece' before' =>
      rw [components_of_not_isBlank (not_isBlank_of_trimmed htrimmed')] at h
      cases h
  | cons piece before =>
    have hblank := not_isBlank_of_trimmed htrimmed
    cases reversed' with
    | nil =>
      rw [components_of_not_isBlank hblank] at h
      cases h
    | cons piece' before' =>
      have hblank' := not_isBlank_of_trimmed htrimmed'
      rw [components_of_not_isBlank hblank, components_of_not_isBlank hblank'] at h
      obtain rfl := (List.cons.inj h).1
      by_cases hdot : piece = [dot]
      · -- A dot is a component only where nothing is before it.
        have hnil : ∀ {before}, Pieces.isBlank absolute piece before = false → before = [] := by
          intro before hblank
          rw [hdot] at hblank
          simp [Pieces.isBlank] at hblank
          exact hblank.2
        rw [hnil hblank, hnil hblank']
        exact .inl rfl
      · exact .inr ⟨piece, before, before', rfl, rfl, hdot, hblank, hblank'⟩

/-- Ancestors with the same components are interchangeable. -/
theorem interchangeable_of_mem_above {cut cut' : List Bytes} (h : path.Same path')
    (hcheck : FileSystem.checkPath path = .ok ()) (hcheck' : FileSystem.checkPath path' = .ok ())
    (hcut : cut ∈ Pieces.above path.pieces.absolute path.pieces.reversed)
    (hcut' : cut' ∈ Pieces.above path.pieces.absolute path'.pieces.reversed)
    (hcomponents : Pieces.components path.pieces.absolute cut = Pieces.components path.pieces.absolute cut') :
    (Pieces.path ⟨path.pieces.absolute, cut⟩).Interchangeable (Pieces.path ⟨path.pieces.absolute, cut'⟩) := by
  obtain ⟨hsuffix, htrimmed⟩ := trimmed_of_mem_above hcut
  obtain ⟨hsuffix', htrimmed'⟩ := trimmed_of_mem_above hcut'
  rcases trimmed_cases htrimmed htrimmed' hcomponents with rfl | ⟨piece, before, before', rfl, rfl, hdot, hblank, hblank'⟩
  · exact .refl _
  have hslash := fun piece' hmem => path.slash_notMem_pieces piece' (hsuffix.subset hmem)
  have hslash' := fun piece' hmem => path'.slash_notMem_pieces piece' (hsuffix'.subset hmem)
  obtain ⟨hendsInDot, hasks⟩ := asksForDirectory_path hslash hblank hdot
  obtain ⟨hendsInDot', hasks'⟩ := asksForDirectory_path hslash' hblank' hdot
  have hbegins := spelling_path_prefix path.pieces.absolute hsuffix
  have hbegins' := spelling_path_prefix path.pieces.absolute hsuffix'
  have hpath' : Pieces.path ⟨path.pieces.absolute, path'.pieces.reversed⟩ = path' := by rw [h.1, path_pieces]
  rw [path_pieces] at hbegins
  rw [hpath'] at hbegins'
  have hne := spelling_ne_nil_of_asksForDirectory hasks
  have hne' := spelling_ne_nil_of_asksForDirectory hasks'
  have hcheckCut := FileSystem.checkPath_of_isPrefix hcheck hne hbegins
  have hcheckCut' := FileSystem.checkPath_of_isPrefix hcheck' hne' hbegins'
  have habsolute := (isAbsolute_of_isPrefix hbegins hne).trans
    (h.isAbsolute_eq.trans (isAbsolute_of_isPrefix hbegins' hne').symm)
  have hway : (Pieces.path ⟨path.pieces.absolute, piece :: before⟩).way =
      (Pieces.path ⟨path.pieces.absolute, piece :: before'⟩).way := by
    rw [way_path, way_path, hcomponents]
  exact ⟨⟨hcheckCut.trans hcheckCut'.symm, habsolute, hway, hendsInDot.trans hendsInDot'.symm⟩, hasks.trans hasks'.symm⟩

/-- **The ancestors of two spellings of one path are interchangeable, one by one.** -/
theorem Same.ancestors (h : path.Same path') (hcheck : FileSystem.checkPath path = .ok ())
    (hcheck' : FileSystem.checkPath path' = .ok ()) :
    List.Forall₂ (fun parent parent' => parent.path.Interchangeable parent'.path) path.pieces.ancestors path'.pieces.ancestors := by
  have hmap : (Pieces.above path.pieces.absolute path.pieces.reversed).map (Pieces.components path.pieces.absolute) =
      (Pieces.above path.pieces.absolute path'.pieces.reversed).map (Pieces.components path.pieces.absolute) := by
    rw [components_above, components_above, h.2, h.1]
  unfold Pieces.ancestors
  rw [← h.1, List.forall₂_map_left_iff, List.forall₂_map_right_iff, List.forall₂_iff_get]
  refine ⟨by simpa using congrArg List.length hmap, fun i hi hi' => ?_⟩
  have hcomponents := List.getElem_of_eq hmap (i := i) (by simpa using hi)
  rw [List.getElem_map, List.getElem_map] at hcomponents
  exact interchangeable_of_mem_above h hcheck hcheck' (List.get_mem _ _) (List.get_mem _ _) hcomponents

end Path

namespace FileSystem

variable {files : FileSystem} {path path' : Path}

/-- Whether a path leads to a directory does not depend on its spelling. -/
theorem isDirectory_of_same (h : path.Same path') (hcheck : checkPath path = .ok () ↔ checkPath path' = .ok ()) :
    files.isDirectory path = files.isDirectory path' := by
  rw [Bool.eq_iff_iff, isDirectory_iff_way, isDirectory_iff_way, hcheck, origin_congr h.isAbsolute_eq, h.way_eq]

/-- One spelling of a path leads to what is no directory, and the other one leads nowhere, because it asks for a directory. -/
structure EndHides (files : FileSystem) (path path' : Path) : Prop where
  asks : path.asksForDirectory = true
  not_asks : path'.asksForDirectory = false
  leads : files.Leads path'
  not_directory : files.isDirectory path' = false

theorem isDirectory_of_asksForDirectory (h : files.Leads path) (hasks : path.asksForDirectory = true) :
    files.isDirectory path = true := by
  obtain ⟨found, hfind⟩ := h
  obtain ⟨-, _, -, -, hdirectory⟩ := find_iff_way.1 hfind
  obtain ⟨mode, entries, hnode⟩ := hdirectory hasks
  exact isDirectory_iff_find.2 ⟨found, mode, entries, hfind, hnode⟩

/-- If only one spelling leads somewhere, the end of the other one is why. -/
theorem endHides_of_leads (h : path.Same path') (hcheck : checkPath path = .ok ()) (hleads : files.Leads path')
    (hnot : ¬ files.Leads path) : EndHides files path path' := by
  obtain ⟨found, hfind⟩ := hleads
  obtain ⟨-, start, horigin, hfollow, hdirectory⟩ := find_iff_way.1 hfind
  have hleads : (path.asksForDirectory → ∃ mode entries, found.node = .directory mode entries) → files.Leads path := fun hnode =>
    ⟨found, find_iff_way.2 ⟨hcheck, start, (origin_congr h.isAbsolute_eq).trans horigin, h.way_eq.symm ▸ hfollow, hnode⟩⟩
  have hnode : ¬ ∃ mode entries, found.node = .directory mode entries := fun hnode => hnot (hleads fun _ => hnode)
  refine ⟨by_contra fun hasks => hnot (hleads fun hasks' => absurd hasks' hasks),
    Bool.eq_false_iff.2 fun hasks => hnode (hdirectory hasks), ⟨found, hfind⟩, Bool.eq_false_iff.2 fun hisDirectory => ?_⟩
  obtain ⟨found', mode, entries, hfind', hnode'⟩ := isDirectory_iff_find.1 hisDirectory
  rw [hfind, Except.ok.injEq] at hfind'
  exact hnode ⟨mode, entries, hfind' ▸ hnode'⟩

end FileSystem

/-! ## Calls -/

theorem Path.Interchangeable.leads_iff {path path' : Path} (h : path.Interchangeable path') (files : FileSystem) :
    files.Leads path ↔ files.Leads path' := by
  unfold FileSystem.Leads
  simp only [FileSystem.find_iff_way, h.checked, FileSystem.origin_congr h.isAbsolute, h.way, h.asksForDirectory]

namespace Path.MadeAlike

open FileSystem

variable {path path' : Path} (h : path.MadeAlike path')

include h

theorem isDirectory_eq (files : FileSystem) : files.isDirectory path = files.isDirectory path' := by
  rw [Bool.eq_iff_iff, isDirectory_iff_way, isDirectory_iff_way, h.checked, origin_congr h.isAbsolute, h.way]

/-- The steps are the same, but for the dots before the last one. -/
theorem steps_eq : path.lastStep = path'.lastStep ∧ undotted path.steps.dropLast = undotted path'.steps.dropLast := by
  have hway := h.way
  rw [Path.way_eq, Path.way_eq, ← h.endsInDot] at hway
  by_cases hdot : path.endsInDot
  · have hdot' : path'.endsInDot := h.endsInDot ▸ hdot
    rw [if_pos hdot, if_pos hdot] at hway
    simp only [Path.endsInDot, beq_iff_eq] at hdot hdot'
    exact ⟨hdot.trans hdot'.symm, hway⟩
  · rw [if_neg hdot, if_neg hdot] at hway
    obtain ⟨hbefore, hlast⟩ := List.append_inj' hway rfl
    exact ⟨List.singleton_inj.1 hlast, hbefore⟩

theorem vacancy_eq (files : FileSystem) : files.vacancy path = files.vacancy path' := by
  obtain ⟨hlast, hbefore⟩ := h.steps_eq
  cases hcheck : checkPath path with
  | error error => rw [vacancy_of_checkPath hcheck, vacancy_of_checkPath (h.checked.symm.trans hcheck)]
  | ok _ =>
    have hcheck' := h.checked.symm.trans hcheck
    have horigins : files.origin path = files.origin path' := origin_congr h.isAbsolute
    cases horigin : files.origin path with
    | error error =>
      rw [vacancy_of_origin hcheck horigin, vacancy_of_origin hcheck' (horigins.symm.trans horigin)]
    | ok start =>
      have horigin' := horigins.symm.trans horigin
      have hfollow : files.follow .find linkLimit start (path.steps.dropLast ++ [.current]) =
          files.follow .find linkLimit start (path'.steps.dropLast ++ [.current]) := follow_congr (by simp) hbefore _ _
      rcases files.follow_current_cases linkLimit start path.steps.dropLast with ⟨found, hfound⟩ | ⟨error, herror⟩
      · have hwalk := walkToLast_of_found hcheck horigin ((follow_stay_found_iff (by simp) (by simp)).1 hfound).1
        have hwalk' := walkToLast_of_found hcheck' horigin'
          ((follow_stay_found_iff (by simp) (by simp)).1 (hfollow.symm.trans hfound)).1
        rw [vacancy, vacancy, hwalk, hwalk', hlast]
      · rw [vacancy_of_error hcheck horigin herror, vacancy_of_error hcheck' horigin' (hfollow.symm.trans herror)]

theorem makeDirectory_eq (files : FileSystem) : files.makeDirectory path = files.makeDirectory path' := by
  rw [makeDirectory, makeDirectory, h.vacancy_eq]

theorem settle_eq (files : FileSystem) (error : SystemError) : files.settle path error = files.settle path' error := by
  rw [settle, settle, h.isDirectory_eq]

end Path.MadeAlike

namespace FileSystem

open ConsoleKit.Path (Pieces)

variable {files : FileSystem} {path path' : Path}

/-- A directory is made in the same way if its missing parents are, too. -/
theorem makeDirectories_eq {above above' : List Pieces} (h : path.MadeAlike path')
    (habove : List.Forall₂ (fun parent parent' : Pieces => parent.path.MadeAlike parent'.path) above above')
    (files : FileSystem) : files.makeDirectories path above = files.makeDirectories path' above' := by
  induction habove generalizing path path' files with
  | nil =>
    unfold makeDirectories
    simp only [h.isEmpty, h.makeDirectory_eq, h.settle_eq]
  | cons hparent _ ih =>
    unfold makeDirectories
    simp only [h.isEmpty, h.makeDirectory_eq, h.settle_eq, ih hparent]

/-- What is joined to two spellings of one path leads the same way, for every purpose. -/
theorem walk_join_eq (h : path.Same path') {name : FileName} (hcheck : checkPath (path.join name) = .ok ())
    (hcheck' : checkPath (path'.join name) = .ok ()) (files : FileSystem) (purpose : Purpose) :
    files.walk purpose (path.join name) = files.walk purpose (path'.join name) := by
  have hsame := h.join name
  rw [walk, walk, hcheck, hcheck', origin_congr hsame.isAbsolute_eq, Path.segments_join, Path.segments_join]
  have hfollow : ∀ start, files.follow purpose linkLimit start (path.steps ++ [.entry name.bytes]) =
      files.follow purpose linkLimit start (path'.steps ++ [.entry name.bytes]) := fun start =>
    follow_congr (by simp) h.way_eq linkLimit start
  simp only [hfollow]

end FileSystem

end ConsoleKit
