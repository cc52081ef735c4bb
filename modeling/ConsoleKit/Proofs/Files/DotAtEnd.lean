import ConsoleKit.Deployment.Separation
import ConsoleKit.Proofs.Files.Spelling

/-!
# A dot at the end

A directory is not made under a path that ends in a dot: the last step has to be a name. Its parents are made, though, and
so the path without the dot may be made where the path with it is not (`DotHinders`). In every other case the two come to
the same (`madeEqually_or_dotHinders`).
-/

namespace ConsoleKit

namespace Path

variable {path path' : Path}

/-- A path without ancestors leads no way. -/
theorem way_of_ancestors_eq_nil (h : path.pieces.ancestors = []) : path.way = [] := by
  have hcomponents := components_above path.pieces.absolute path.pieces.reversed
  have habove : Pieces.above path.pieces.absolute path.pieces.reversed = [] := by simpa [Pieces.ancestors] using h
  have hnone : Pieces.components path.pieces.absolute path.pieces.reversed = [] := by
    rw [habove] at hcomponents
    cases hcases : Pieces.components path.pieces.absolute path.pieces.reversed with
    | nil => rfl
    | cons piece pieces =>
      rw [hcases] at hcomponents
      cases pieces <;> cases hcomponents
  have hway := way_path path.pieces.absolute path.pieces.reversed
  rw [hnone, List.reverse_nil, List.flatMap_nil] at hway
  exact (congrArg way path.path_pieces).symm.trans hway

/-- The parent of a path that does not end in a dot leads the way up to the last step. -/
theorem Extends.way_eq {parent : Path} {last : Segment} (h : Extends parent path last) (hdot : path.endsInDot = false) :
    parent.way = undotted path.steps.dropLast := by
  obtain ⟨dots, dots', hsplit, hdots, hdots'⟩ := h.steps
  have hnil : dots' = [] := by
    rcases List.eq_nil_or_concat dots' with hnil | ⟨front, final, hfinal⟩
    · exact hnil
    · rw [List.concat_eq_append] at hfinal
      have hregroup : path.steps = (parent.steps ++ dots ++ last :: front) ++ [final] := by
        rw [hsplit, hfinal]
        simp
      have hlast : path.lastStep = .current := by
        rw [lastStep, hregroup, List.getLast?_concat, Option.getD_some]
        exact hdots' final (hfinal ▸ by simp)
      simp [endsInDot, hlast] at hdot
  rw [hsplit, hnil, List.dropLast_concat, undotted_append]
  simp [undotted, filter_dots hdots, way]

/-- A path that does not end in a dot has a parent, which leads the way up to the last step. -/
theorem exists_parent (hdot : path.endsInDot = false) : ∃ parent above, path.pieces.ancestors = parent :: above ∧
    parent.path.spelling <+: path.spelling ∧ parent.path.way = undotted path.steps.dropLast := by
  have hclimbs := path.climbs_ancestors
  cases hancestors : path.pieces.ancestors with
  | nil =>
    have hway := way_of_ancestors_eq_nil hancestors
    rw [way_eq, if_neg (by simp [hdot])] at hway
    simp at hway
  | cons parent above =>
    rw [hancestors] at hclimbs
    cases hclimbs with
    | cons hextends _ => exact ⟨parent, above, rfl, hextends.isPrefix, hextends.way_eq hdot⟩

end Path

namespace FileSystem

open ConsoleKit.Path (Pieces Same undotted undotted_append)

variable {files : FileSystem} {path path' : Path} {parent : Pieces} {above : List Pieces}

/-- Under a path that ends in a dot no directory is made, but under a path that differs by the dot. -/
structure DotHinders (files : FileSystem) (path path' : Path) : Prop where
  endsInDot : path.endsInDot = true
  not_endsInDot : path'.endsInDot = false
  made : (files.withDirectory path').isDirectory path' = true
  unmade : (files.withDirectory path).isDirectory path = false

/-- To make a directory under one path or the other, with its missing parents, changes the same, and succeeds or fails alike. -/
def MadeEqually (files : FileSystem) (path path' : Path) : Prop :=
  (files.makeDirectories path path.pieces.ancestors).2 = (files.makeDirectories path' path'.pieces.ancestors).2 ∧
    ((files.makeDirectories path path.pieces.ancestors).1 = .ok () ↔
      (files.makeDirectories path' path'.pieces.ancestors).1 = .ok ())

/-- A path that ends in a dot is not made. -/
theorem makeDirectory_of_endsInDot (hdot : path.endsInDot = true) (files : FileSystem) :
    ∃ error, files.makeDirectory path = .error error := by
  cases hmake : files.makeDirectory path with
  | error error => exact ⟨error, rfl⟩
  | ok made =>
    obtain ⟨vacancy, hvacancy, -⟩ := makeDirectory_eq_ok_iff.1 hmake
    obtain ⟨-, before, piece, -, -, hsteps, -⟩ := vacancy_inv hvacancy
    simp [Path.endsInDot, Path.lastStep, hsteps] at hdot

theorem settle_eq_ok_iff {error : SystemError} : files.settle path error = .ok () ↔ files.isDirectory path = true := by
  unfold settle
  split <;> simp [*]

/-- Where a directory is made, none has been. -/
theorem not_isDirectory_of_makeDirectory {made : FileSystem} (h : files.makeDirectory path = .ok made) :
    files.isDirectory path = false := by
  refine Bool.eq_false_iff.2 fun hdirectory => ?_
  obtain ⟨spot, hfind⟩ := leads_of_isDirectory hdirectory
  obtain ⟨hcheck, start, horigin, hfollow⟩ := follow_of_find hfind
  obtain ⟨error, herror, -⟩ := makeDirectory_of_follow hcheck horigin hfollow
  rw [h] at herror
  cases herror

/-- Where its parent is there, a directory is made, or nothing is. -/
theorem makeDirectories_of_parent (hthere : parent.path.isEmpty ∨ files.Leads parent.path) (path : Path) (above : List Pieces) :
    (files.makeDirectories path (parent :: above)).2 = files ∧
        ((files.makeDirectories path (parent :: above)).1 = .ok () → path.isEmpty ∨ files.isDirectory path = true) ∨
      ∃ made, files.makeDirectory path = .ok made ∧ files.makeDirectories path (parent :: above) = (.ok (), made) := by
  obtain ⟨middle, hmiddle, hlast⟩ := makeDirectories_inv files path (parent :: above)
  have hsame : middle = files := by
    rcases hmiddle with hsame | ⟨_, _, heq, hmiddle⟩
    · exact hsame
    · cases heq
      rcases hthere with hempty | ⟨spot, hfind⟩
      · rw [hmiddle, makeDirectories_of_isEmpty hempty]
      · rw [hmiddle, makeDirectories_of_find hfind]
  subst hsame
  exact hlast

/-- The walk up to a dot at the end goes on from the walk up to the last step, and fails where that one does. -/
theorem follow_of_dot {start : Spot} {error : SystemError} (h : path.Same path') (hdot : path.endsInDot = true)
    (hdot' : path'.endsInDot = false)
    (herror : files.follow .find linkLimit start (path'.steps.dropLast ++ [.current]) = .error error) :
    files.follow .find linkLimit start (path.steps.dropLast ++ [.current]) = .error error := by
  have hlast : path'.lastStep ≠ .current := by simpa [Path.endsInDot] using hdot'
  have hbefore : undotted path.steps.dropLast = undotted (path'.steps.dropLast ++ [.current] ++ [path'.lastStep]) := by
    have hway := h.way_eq
    rw [Path.way_eq, Path.way_eq, if_pos hdot, if_neg (by simp [hdot'])] at hway
    rw [hway, undotted_append, undotted_append]
    simp [undotted, hlast]
  calc files.follow .find linkLimit start (path.steps.dropLast ++ [.current])
      = files.follow .find linkLimit start (path'.steps.dropLast ++ [.current] ++ [path'.lastStep] ++ [.current]) :=
        follow_congr (by simp) hbefore linkLimit start
    _ = files.follow .find linkLimit start (path'.steps.dropLast ++ [.current] ++ [path'.lastStep, .current]) := by
        rw [List.append_assoc, List.singleton_append]
    _ = .error error := follow_append_error (by simp) (by simp) (.inl herror)

section Dot

variable (h : path.Same path') (hcheck : checkPath path = .ok ()) (hcheck' : checkPath path' = .ok ())
  (hdot : path.endsInDot = true) (hdot' : path'.endsInDot = false)

include h hcheck hcheck' hdot hdot'

/-- With or without a dot at its end, a path cannot be made for the same reason; or else its parent is there. -/
theorem makeDirectory_of_dot (files : FileSystem) :
    (∃ error, files.makeDirectory path = .error error ∧ files.makeDirectory path' = .error error) ∨
      ∃ parent above, path'.pieces.ancestors = parent :: above ∧ (parent.path.isEmpty ∨ files.Leads parent.path) := by
  have horigins : files.origin path = files.origin path' := origin_congr h.isAbsolute_eq
  cases horigin : files.origin path' with
  | error error =>
    refine .inl ⟨error, ?_, ?_⟩
    · rw [makeDirectory, vacancy_of_origin hcheck (horigins.trans horigin)]
      rfl
    · rw [makeDirectory, vacancy_of_origin hcheck' horigin]
      rfl
  | ok start =>
    rcases files.follow_current_cases linkLimit start path'.steps.dropLast with ⟨found, hfound⟩ | ⟨error, herror⟩
    · obtain ⟨parent, above, hancestors, hbegins, hway⟩ := Path.exists_parent hdot'
      refine .inr ⟨parent, above, hancestors, or_iff_not_imp_left.2 fun hempty => ?_⟩
      have hne : parent.path.spelling ≠ [] := by simpa [Path.isEmpty] using hempty
      have horigin' := (origin_congr (Path.isAbsolute_of_isPrefix hbegins hne)).trans horigin
      have hparent : files.follow .find linkLimit start (parent.path.way ++ [.current]) = .ok (.found found) := by
        rw [hway, ← follow_undotted (by simp)]
        exact hfound
      exact leads_of_isDirectory
        (isDirectory_iff_way.2 ⟨checkPath_of_isPrefix hcheck' hne hbegins, start, found, horigin', hparent⟩)
    · refine .inl ⟨error, ?_, ?_⟩
      · rw [makeDirectory, vacancy_of_error hcheck (horigins.trans horigin) (follow_of_dot h hdot hdot' herror)]
        rfl
      · rw [makeDirectory, vacancy_of_error hcheck' horigin herror]
        rfl

/-- Once the parents are made, the dot is what hinders the path with it, or both paths fail, or both are there. -/
theorem dotHinders_or_madeEqually_of_parents {parent' : Pieces} {above' : List Pieces} {middle : FileSystem}
    (hancestors : path.pieces.ancestors = parent :: above) (hancestors' : path'.pieces.ancestors = parent' :: above')
    (hmake : files.makeDirectory path = .error .notFound) (hmake' : files.makeDirectory path' = .error .notFound)
    (hmade : files.makeDirectories parent.path above = (.ok (), middle))
    (hmade' : files.makeDirectories parent'.path above' = (.ok (), middle)) :
    DotHinders files path path' ∨ MadeEqually files path path' := by
  have hsame : middle.isDirectory path = middle.isDirectory path' := isDirectory_of_same h (iff_of_true hcheck hcheck')
  have hwhole := makeDirectories_of_parent_ok (not_isEmpty_of_checkPath hcheck) hmake hmade
  have hwhole' := makeDirectories_of_parent_ok (not_isEmpty_of_checkPath hcheck') hmake' hmade'
  obtain ⟨failure, hfailure⟩ := makeDirectory_of_endsInDot hdot middle
  rw [hfailure] at hwhole
  cases hlast : middle.makeDirectory path' with
  | ok made =>
    rw [hlast] at hwhole'
    refine .inl ⟨hdot, hdot', ?_, ?_⟩
    · rw [withDirectory, hancestors', hwhole']
      exact isDirectory_of_makeDirectory hlast
    · rw [withDirectory, hancestors, hwhole]
      exact hsame.trans (not_isDirectory_of_makeDirectory hlast)
  | error failure' =>
    rw [hlast] at hwhole'
    refine .inr ?_
    rw [MadeEqually, hancestors, hancestors', hwhole, hwhole']
    exact ⟨rfl, by rw [settle_eq_ok_iff, settle_eq_ok_iff, hsame]⟩

/-- Two paths that cannot be made for the same reason have the same parents made, if that is what they miss. -/
theorem dotHinders_or_madeEqually_of_error {error : SystemError} (hmake : files.makeDirectory path = .error error)
    (hmake' : files.makeDirectory path' = .error error) : DotHinders files path path' ∨ MadeEqually files path path' := by
  have hempty := not_isEmpty_of_checkPath hcheck
  have hempty' := not_isEmpty_of_checkPath hcheck'
  by_cases hne : error = .notFound
  · subst hne
    have hparents := h.ancestors hcheck hcheck'
    cases hancestors : path.pieces.ancestors with
    | nil =>
      have hancestors' : path'.pieces.ancestors = [] := by simpa [hancestors] using hparents
      refine .inr ?_
      unfold MadeEqually makeDirectories
      simp [hancestors, hancestors', hempty, hempty', hmake, hmake']
    | cons parent above =>
      rw [hancestors] at hparents
      obtain ⟨parent', above', hparent, habove, hancestors'⟩ := List.forall₂_cons_left_iff.1 hparents
      have hsame := makeDirectories_eq hparent.toMadeAlike (habove.imp fun _ _ h => h.toMadeAlike) files
      rcases hmade : files.makeDirectories parent.path above with ⟨error | _, middle⟩
      · refine .inr ?_
        rw [MadeEqually, hancestors, hancestors', makeDirectories_of_parent_error hempty hmake hmade,
          makeDirectories_of_parent_error hempty' hmake' (hsame.symm.trans hmade)]
        exact ⟨rfl, .rfl⟩
      · exact dotHinders_or_madeEqually_of_parents h hcheck hcheck' hdot hdot' hancestors hancestors' hmake hmake' hmade
          (hsame.symm.trans hmade)
  · refine .inr ?_
    rw [MadeEqually, makeDirectories_of_error hempty hmake hne, makeDirectories_of_error hempty' hmake' hne]
    exact ⟨rfl, by rw [settle_eq_ok_iff, settle_eq_ok_iff, isDirectory_of_same h (iff_of_true hcheck hcheck')]⟩

/-- A dot at the end does not matter where a directory is made, unless it is what hinders that. -/
theorem dotHinders_or_madeEqually (hnot : files.isDirectory path' = false) :
    DotHinders files path path' ∨ MadeEqually files path path' := by
  rcases makeDirectory_of_dot h hcheck hcheck' hdot hdot' files with
    ⟨error, hmake, hmake'⟩ | ⟨parent', above', hancestors', hthere'⟩
  · exact dotHinders_or_madeEqually_of_error h hcheck hcheck' hdot hdot' hmake hmake'
  -- The parent is there, and needs not be made under either path.
  have hparents := h.ancestors hcheck hcheck'
  rw [hancestors'] at hparents
  obtain ⟨parent, above, hparent, -, hancestors⟩ := List.forall₂_cons_right_iff.1 hparents
  have hthere : parent.path.isEmpty ∨ files.Leads parent.path := by rwa [hparent.isEmpty, hparent.leads_iff]
  have hnot' : files.isDirectory path = false := (isDirectory_of_same h (iff_of_true hcheck hcheck')).trans hnot
  have hempty := not_isEmpty_of_checkPath hcheck
  have hempty' := not_isEmpty_of_checkPath hcheck'
  obtain ⟨hfiles, hresult⟩ : (files.makeDirectories path (parent :: above)).2 = files ∧
      (files.makeDirectories path (parent :: above)).1 ≠ .ok () := by
    rcases makeDirectories_of_parent hthere path above with ⟨hfiles, hresult⟩ | ⟨made, hmake, -⟩
    · exact ⟨hfiles, fun hok => by simpa [hempty, hnot'] using hresult hok⟩
    · obtain ⟨failure, hfailure⟩ := makeDirectory_of_endsInDot hdot files
      rw [hmake] at hfailure
      cases hfailure
  rcases makeDirectories_of_parent hthere' path' above' with ⟨hfiles', hresult'⟩ | ⟨made, hmake, hmade⟩
  · refine .inr ?_
    rw [MadeEqually, hancestors, hancestors']
    exact ⟨hfiles.trans hfiles'.symm, iff_of_false hresult fun hok => by simpa [hempty', hnot] using hresult' hok⟩
  · refine .inl ⟨hdot, hdot', ?_, ?_⟩
    · rw [withDirectory, hancestors', hmade]
      exact isDirectory_of_makeDirectory hmake
    · rw [withDirectory, hancestors, hfiles]
      exact hnot'

end Dot

theorem madeEqually_of_madeAlike (h : path.Same path') (halike : path.MadeAlike path') (hcheck : checkPath path = .ok ())
    (hcheck' : checkPath path' = .ok ()) (files : FileSystem) : MadeEqually files path path' := by
  have hparents := (h.ancestors hcheck hcheck').imp fun _ _ h => h.toMadeAlike
  rw [MadeEqually, makeDirectories_eq halike hparents]
  exact ⟨rfl, .rfl⟩

/-- **Two spellings are made equally, unless a dot at the end of one hinders that.** -/
theorem madeEqually_or_dotHinders (h : path.Same path') (hcheck : checkPath path = .ok ()) (hcheck' : checkPath path' = .ok ())
    (hnot : files.isDirectory path' = false) :
    MadeEqually files path path' ∨ DotHinders files path path' ∨ DotHinders files path' path := by
  have hnot' : files.isDirectory path = false := (isDirectory_of_same h (iff_of_true hcheck hcheck')).trans hnot
  cases hdot : path.endsInDot <;> cases hdot' : path'.endsInDot
  · exact .inl (madeEqually_of_madeAlike h (h.madeAlike hcheck hcheck' (hdot.trans hdot'.symm)) hcheck hcheck' files)
  · rcases dotHinders_or_madeEqually h.symm hcheck' hcheck hdot' hdot hnot' with hhinders | ⟨hfiles, hresult⟩
    · exact .inr (.inr hhinders)
    · exact .inl ⟨hfiles.symm, hresult.symm⟩
  · rcases dotHinders_or_madeEqually h hcheck hcheck' hdot hdot' hnot with hhinders | hmade
    · exact .inr (.inl hhinders)
    · exact .inl hmade
  · exact .inl (madeEqually_of_madeAlike h (h.madeAlike hcheck hcheck' (hdot.trans hdot'.symm)) hcheck hcheck' files)

end FileSystem

end ConsoleKit
