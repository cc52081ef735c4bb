import ConsoleKit.Proofs.Files.Ancestors
import ConsoleKit.Proofs.Files.Directories

/-!
# Dots on the way

A dot on the way leads nowhere else, and what it asks for, a directory, the next segment asks for as well. So a walk is the
same without the dots before its last segment, down to the error with which it fails (`follow_undotted`).
-/

namespace ConsoleKit

namespace Path

variable {path : Path} {segments rest : List Segment}

/-- Segments without the dots among them. -/
def undotted (segments : List Segment) : List Segment :=
  segments.filter (· != .current)

theorem undotted_append (segments rest : List Segment) :
    undotted (segments ++ rest) = undotted segments ++ undotted rest :=
  List.filter_append ..

theorem undotted_undotted (segments : List Segment) : undotted (undotted segments) = undotted segments := by
  simp [undotted]

theorem undotted_current (segments : List Segment) : undotted (.current :: segments) = undotted segments :=
  rfl

theorem undotted_cons {segment : Segment} (h : segment ≠ .current) (segments : List Segment) :
    undotted (segment :: segments) = segment :: undotted segments := by
  simp [undotted, h]

/-- The way that a path leads, whatever dots are on it. -/
def way (path : Path) : List Segment :=
  undotted path.steps

/-- The last step of a path. A path that is nothing but slashes ends at the root itself, as if in a dot. -/
def lastStep (path : Path) : Segment :=
  path.steps.getLast?.getD .current

/-- Whether a path ends in a dot. -/
def endsInDot (path : Path) : Bool :=
  path.lastStep == .current

/-- Whether what a path leads to has to be a directory, because of a dot or a slash at the end of the path. -/
def asksForDirectory (path : Path) : Bool :=
  path.endsInSlash || path.endsInDot

theorem consPiece_eq_nil {reversed : Bytes} (h : Segment.consPiece reversed rest = []) : reversed = [] ∧ rest = [] := by
  unfold Segment.consPiece at h
  split at h
  · rename_i hnone
    exact ⟨List.reverse_eq_nil_iff.1 (ofPiece?_eq_none_iff.1 hnone), h⟩
  · cases h

theorem stepsFrom_eq_nil {bytes reversed : Bytes} (h : stepsFrom reversed bytes = []) :
    reversed = [] ∧ ∀ byte ∈ bytes, byte = slash := by
  induction bytes generalizing reversed with
  | nil => exact ⟨(consPiece_eq_nil h).1, by simp⟩
  | cons byte bytes ih =>
    unfold stepsFrom at h
    split at h
    · rename_i hbyte
      obtain ⟨hnil, hrest⟩ := consPiece_eq_nil h
      exact ⟨hnil, List.forall_mem_cons.2 ⟨hbyte, (ih hrest).2⟩⟩
    · cases (ih h).1

/-- A path without steps is nothing but slashes. -/
theorem slashes_of_steps (h : path.steps = []) (hempty : ¬ path.isEmpty) :
    path.isAbsolute = true ∧ path.endsInSlash = true := by
  have hslash := (stepsFrom_eq_nil h).2
  have hne : path.spelling ≠ [] := by simpa [isEmpty] using hempty
  unfold isAbsolute endsInSlash
  rw [List.head?_eq_some_head hne, List.getLast?_eq_some_getLast hne, hslash _ (List.head_mem hne),
    hslash _ (List.getLast_mem hne)]
  exact ⟨rfl, rfl⟩

theorem steps_eq_concat (h : path.steps ≠ []) : path.steps = path.steps.dropLast ++ [path.lastStep] := by
  rw [lastStep, List.getLast?_eq_some_getLast h, Option.getD_some, List.dropLast_concat_getLast]

/-- What is before the last step of a path is the way, up to that step. -/
theorem way_eq (path : Path) : path.way =
    if path.endsInDot then undotted path.steps.dropLast else undotted path.steps.dropLast ++ [path.lastStep] := by
  by_cases hnil : path.steps = []
  · simp [way, endsInDot, lastStep, hnil]
  · unfold way endsInDot
    conv_lhs => rw [steps_eq_concat hnil, undotted_append]
    by_cases hlast : path.lastStep = .current
    · simp [hlast, undotted]
    · simp [hlast, undotted]

end Path

namespace FileSystem

open ConsoleKit.Path (Segment undotted undotted_append undotted_undotted undotted_current undotted_cons)

variable {files : FileSystem} {purpose : Purpose} {segments rest tail : List Segment} {segment last : Segment} {links : Nat}
  {spot : Spot} {error : SystemError}

/-! ## One segment -/

/-- What one segment comes to does not depend on the purpose of the walk, nor on the segments after it, unless its name is
missing. -/
theorem advance_cases (files : FileSystem) (spot : Spot) (segment : Segment) :
    (∃ error, ∀ purpose rest, ¬ Refused purpose segment rest →
        files.advance purpose spot (segment :: rest) = .error error) ∨
      (∃ name, ∀ purpose rest, ¬ Refused purpose segment rest → files.advance purpose spot (segment :: rest) =
        if rest.isEmpty then .ok (.arrived (.vacant spot.location name)) else .error .notFound) ∨
      (∃ next, files.Passes spot segment next) ∨
      ∃ target, ∀ purpose rest, ¬ Refused purpose segment rest →
        files.advance purpose spot (segment :: rest) = .ok (.link spot target rest) := by
  obtain ⟨location, node, removed⟩ := spot
  cases node with
  | directory mode entries =>
    cases segment with
    | current => exact .inr (.inr (.inl ⟨_, .stay rfl (.inl rfl)⟩))
    | trailingSlash => exact .inr (.inr (.inl ⟨_, .stay rfl (.inr rfl)⟩))
    | parent =>
      cases hparent : files.parentSpot ⟨location, .directory mode entries, removed⟩ with
      | error error => exact .inl ⟨error, fun purpose rest _ => by simp only [advance, hparent]⟩
      | ok parent => exact .inr (.inr (.inl ⟨parent, .parent rfl hparent⟩))
    | entry piece =>
      have hwrite : ∀ purpose rest, ¬ Refused purpose (.entry piece) rest → ¬ (purpose = .write ∧ rest = [.trailingSlash]) :=
        fun purpose rest hrefused h => hrefused ⟨h.1, h.2, piece, rfl⟩
      cases removed with
      | true => exact .inl ⟨.notFound, fun purpose rest h => by simp only [advance, if_neg (hwrite purpose rest h), if_true]⟩
      | false =>
        cases hname : FileName.ofBytes? piece with
        | none => exact .inl ⟨.nameTooLong, fun purpose rest h => by simp [advance, if_neg (hwrite purpose rest h), hname]⟩
        | some name =>
          cases hlookup : entries.lookup name with
          | none => exact .inr (.inl ⟨name, fun purpose rest h => advance_missing h hname hlookup⟩)
          | some child =>
            by_cases hlink : ∃ target, child = .link target
            · obtain ⟨target, rfl⟩ := hlink
              exact .inr (.inr (.inr ⟨target, fun purpose rest h => advance_link h hname hlookup⟩))
            · exact .inr (.inr (.inl ⟨_, .entry hname hlookup fun target heq => hlink ⟨target, heq⟩⟩))
  | _ => exact .inl ⟨.notDirectory, fun _ _ _ => rfl⟩

/-- Whether a segment is refused is seen from the last segment of all. -/
theorem not_refused_before (hlast : purpose = .write → last ≠ .trailingSlash) (segments : List Segment) :
    ¬ Refused purpose segment (segments ++ [last]) :=
  not_refused_append (by simp) fun hpurpose heq => hlast hpurpose (List.cons.inj heq).1

/-! ## Without dots -/

/-- A stretch is the same without the dots before its last segment. -/
theorem advance_undotted (hlast : purpose = .write → last ≠ .trailingSlash) (segments : List Segment) (spot : Spot) :
    files.advance purpose spot (segments ++ [last]) = files.advance purpose spot (undotted segments ++ [last]) ∨
      ∃ directory target rest,
        files.advance purpose spot (segments ++ [last]) = .ok (.link directory target (rest ++ [last])) ∧
        files.advance purpose spot (undotted segments ++ [last]) = .ok (.link directory target (undotted rest ++ [last])) := by
  induction segments generalizing spot with
  | nil => exact .inl rfl
  | cons segment segments ih =>
    by_cases hcurrent : segment = .current
    · subst hcurrent
      rw [undotted_current]
      by_cases hnode : ∃ mode entries, spot.node = .directory mode entries
      · obtain ⟨mode, entries, hnode⟩ := hnode
        rw [List.cons_append, advance_passes (.stay hnode (.inl rfl)) (not_refused_before hlast segments)]
        exact ih spot
      · -- Both fail, since there is a segment after the dots.
        have hfail : ∀ rest, rest ≠ [] → files.advance purpose spot rest = .error .notDirectory := by
          intro rest hne
          obtain ⟨segment, rest, rfl⟩ := List.exists_cons_of_ne_nil hne
          obtain ⟨location, node, removed⟩ := spot
          cases node with
          | directory mode entries => exact absurd ⟨mode, entries, rfl⟩ hnode
          | _ => rfl
        exact .inl ((hfail _ (by simp)).trans (hfail _ (by simp)).symm)
    · rw [undotted_cons hcurrent, List.cons_append, List.cons_append]
      have hrefused : ∀ rest, ¬ Refused purpose segment (rest ++ [last]) := fun rest => not_refused_before hlast rest
      rcases files.advance_cases spot segment with ⟨error, herror⟩ | ⟨name, hmissing⟩ | ⟨next, hpasses⟩ | ⟨target, hlink⟩
      · exact .inl ((herror _ _ (hrefused _)).trans (herror _ _ (hrefused _)).symm)
      · rw [hmissing _ _ (hrefused _), hmissing _ _ (hrefused _)]
        exact .inl (by simp)
      · rw [advance_passes hpasses (hrefused _), advance_passes hpasses (hrefused _)]
        exact ih next
      · exact .inr ⟨spot, target, segments, hlink _ _ (hrefused _), hlink _ _ (hrefused _)⟩

/-- A walk is the same without the dots before its last segment. The induction is on the links that are followed. -/
theorem follow_undotted (hlast : purpose = .write → last ≠ .trailingSlash) (links : Nat) (spot : Spot)
    (segments : List Segment) : files.follow purpose links spot (segments ++ [last]) =
      files.follow purpose links spot (undotted segments ++ [last]) := by
  induction links generalizing spot segments with
  | zero =>
    rcases files.advance_undotted hlast segments spot with hsame | ⟨directory, target, rest, hlink, hlink'⟩
    · simp only [follow, hsame]
    · simp only [follow, hlink, hlink']
  | succ links ih =>
    rw [follow_succ, follow_succ]
    rcases advance_undotted hlast segments spot with hsame | ⟨directory, target, rest, hlink, hlink'⟩
    · rw [hsame]
    · rw [hlink, hlink']
      dsimp only
      rw [← List.append_assoc, ← List.append_assoc, ih, ih _ (target.segments ++ undotted rest), undotted_append,
        undotted_append, undotted_undotted]

theorem follow_congr {segments' : List Segment} (hlast : purpose = .write → last ≠ .trailingSlash)
    (h : undotted segments = undotted segments') (links : Nat) (spot : Spot) :
    files.follow purpose links spot (segments ++ [last]) = files.follow purpose links spot (segments' ++ [last]) := by
  rw [follow_undotted hlast, h, ← follow_undotted hlast]

/-! ## Segments behind a walk that fails -/

theorem advance_append_error (htail : tail ≠ []) (hwrite : purpose = .write → tail ≠ [.trailingSlash])
    (h : files.advance .find spot segments = .error error) : files.advance purpose spot (segments ++ tail) = .error error := by
  induction segments generalizing spot with
  | nil => cases h
  | cons segment segments ih =>
    have hrefused : ¬ Refused purpose segment (segments ++ tail) := not_refused_append htail hwrite
    rw [List.cons_append]
    rcases files.advance_cases spot segment with ⟨error', herror⟩ | ⟨name, hmissing⟩ | ⟨next, hpasses⟩ | ⟨target, hlink⟩
    · rw [herror _ _ not_refused_find] at h
      rw [herror _ _ hrefused, h]
    · rw [hmissing _ _ not_refused_find] at h
      rw [hmissing _ _ hrefused, if_neg (by simp [htail])]
      split at h
      · cases h
      · exact h
    · rw [advance_passes hpasses not_refused_find] at h
      rw [advance_passes hpasses hrefused]
      exact ih h
    · rw [hlink _ _ not_refused_find] at h
      cases h

/-- A walk finds nothing, for the given reason. -/
def Misses (result : Except SystemError Arrival) (error : SystemError) : Prop :=
  result = .error error ∨ error = .notFound ∧ ∃ directory name, result = .ok (.vacant directory name)

theorem found_or_misses (result : Except SystemError Arrival) :
    (∃ found, result = .ok (.found found)) ∨ ∃ error, Misses result error := by
  cases result with
  | error error => exact .inr ⟨error, .inl rfl⟩
  | ok arrival =>
    cases arrival with
    | found spot => exact .inl ⟨spot, rfl⟩
    | vacant directory name => exact .inr ⟨.notFound, .inr ⟨rfl, directory, name, rfl⟩⟩

/-- Where a walk finds nothing, it fails whatever comes after that. The induction is on the links that are followed. -/
theorem follow_append_error (htail : tail ≠ []) (hwrite : purpose = .write → tail ≠ [.trailingSlash])
    (h : Misses (files.follow .find links spot segments) error) :
    files.follow purpose links spot (segments ++ tail) = .error error := by
  induction links using Nat.strongRecOn generalizing spot segments with
  | ind links ih =>
    cases hadvance : files.advance .find spot segments with
    | error error' =>
      rw [follow_of_error hadvance] at h
      obtain hsame | ⟨-, _, _, hvacant⟩ := h
      · rw [follow_of_error (advance_append_error htail hwrite hadvance), hsame]
      · cases hvacant
    | ok stretch =>
      have hwhole := advance_append htail hwrite hadvance
      cases stretch with
      | arrived arrival =>
        rw [follow_of_arrived hadvance] at h
        obtain hsame | ⟨rfl, _, _, hvacant⟩ := h
        · cases hsame
        · cases hvacant
          exact follow_of_error hwhole
      | link directory target rest =>
        cases links with
        | zero =>
          simp only [follow, hadvance] at h
          simp only [follow, hwhole, Stretch.onward]
          refine h.resolve_right ?_
          rintro ⟨-, _, _, hvacant⟩
          cases hvacant
        | succ links =>
          rw [follow_of_link hadvance] at h
          rw [follow_of_link hwhole, ← List.append_assoc]
          exact ih links (Nat.lt_succ_self links) h

/-! ## Walks to a directory -/

/-- A dot or a slash at the end of a walk asks for a directory, and leads nowhere else. -/
theorem follow_stay_found_iff {found : Spot} (hstay : ∀ segment ∈ tail, segment = .current ∨ segment = .trailingSlash)
    (hne : tail ≠ []) : files.follow .find links spot (segments ++ tail) = .ok (.found found) ↔
      files.follow .find links spot segments = .ok (.found found) ∧ ∃ mode entries, found.node = .directory mode entries := by
  constructor
  · intro h
    obtain ⟨found', links', hfound', hrest⟩ := follow_prefix hne h
    obtain ⟨hsame, hdirectory⟩ := (follow_stay_iff hstay hne).1 hrest
    cases hsame
    exact ⟨hfound', hdirectory⟩
  · rintro ⟨hfound, hdirectory⟩
    obtain ⟨links', hlinks'⟩ := follow_append hfound
    rw [hlinks' .find tail hne (by simp)]
    exact (follow_stay_iff hstay hne).2 ⟨rfl, hdirectory⟩

/-- A walk to a directory fails at what is none. -/
theorem follow_current_not_directory {found : Spot} (h : files.follow .find links spot segments = .ok (.found found))
    (hnode : ∀ mode entries, found.node ≠ .directory mode entries) :
    files.follow .find links spot (segments ++ [.current]) = .error .notDirectory := by
  obtain ⟨links', hlinks'⟩ := follow_append h
  rw [hlinks' .find [.current] (by simp) (by simp)]
  obtain ⟨location, node, removed⟩ := found
  cases node with
  | directory mode entries => exact absurd rfl (hnode mode entries)
  | _ => exact follow_of_error rfl

/-! ## Looking -/

section Looking

variable {path : Path} {start found : Spot}

/-- The steps of a path lead where its way leads. -/
theorem follow_steps_iff (hne : path.steps ≠ []) : files.follow .find links spot path.steps = .ok (.found found) ↔
    files.follow .find links spot path.way = .ok (.found found) ∧
      (path.endsInDot → ∃ mode entries, found.node = .directory mode entries) := by
  rw [Path.way_eq]
  by_cases hdot : path.endsInDot
  · have hlast : path.lastStep = .current := by simpa [Path.endsInDot] using hdot
    conv_lhs => rw [Path.steps_eq_concat hne, follow_undotted (by simp), hlast]
    rw [if_pos hdot, follow_stay_found_iff (by simp) (by simp)]
    simp [hdot]
  · conv_lhs => rw [Path.steps_eq_concat hne, follow_undotted (by simp)]
    simp [hdot]

/-- **Where a path leads depends on its way, and on whether it asks for a directory.** -/
theorem find_iff_way : files.find path = .ok found ↔ checkPath path = .ok () ∧
    ∃ start, files.origin path = .ok start ∧ files.follow .find linkLimit start path.way = .ok (.found found) ∧
      (path.asksForDirectory → ∃ mode entries, found.node = .directory mode entries) := by
  rw [find_eq_ok_iff, walk_eq_ok_iff]
  refine and_congr_right fun hcheck => exists_congr fun start => and_congr_right fun _ => ?_
  have hempty := not_isEmpty_of_checkPath hcheck
  unfold Path.segments Path.asksForDirectory
  by_cases hslash : path.endsInSlash
  · rw [if_pos hslash, follow_stay_found_iff (by simp) (by simp)]
    by_cases hnil : path.steps = []
    · simp [hnil, hslash, Path.way, undotted]
    · rw [follow_steps_iff hnil]
      simp only [hslash, Bool.true_or, forall_const, and_assoc]
      exact and_congr_right fun _ => and_iff_right_of_imp fun hdirectory _ => hdirectory
  · have hnil : path.steps ≠ [] := fun hnil => hslash (Path.slashes_of_steps hnil hempty).2
    rw [if_neg hslash, follow_steps_iff hnil]
    simp [hslash]

/-- Whether a path leads to a directory depends on its way alone. -/
theorem isDirectory_iff_way : files.isDirectory path = true ↔ checkPath path = .ok () ∧
    ∃ start found, files.origin path = .ok start ∧
      files.follow .find linkLimit start (path.way ++ [.current]) = .ok (.found found) := by
  rw [isDirectory_iff_find]
  constructor
  · rintro ⟨found, mode, entries, hfind, hnode⟩
    obtain ⟨hcheck, start, horigin, hfollow, -⟩ := find_iff_way.1 hfind
    exact ⟨hcheck, start, found, horigin, (follow_stay_found_iff (by simp) (by simp)).2 ⟨hfollow, mode, entries, hnode⟩⟩
  · rintro ⟨hcheck, start, found, horigin, hfollow⟩
    obtain ⟨hfound, mode, entries, hnode⟩ := (follow_stay_found_iff (by simp) (by simp)).1 hfollow
    exact ⟨found, mode, entries, find_iff_way.2 ⟨hcheck, start, horigin, hfound, fun _ => ⟨mode, entries, hnode⟩⟩, hnode⟩

end Looking

/-! ## Making a directory -/

section Making

variable {path : Path} {start found : Spot}

theorem vacancy_of_checkPath (h : checkPath path = .error error) : files.vacancy path = .error error := by
  simp [vacancy, walkToLast, h, bind, Except.bind]

theorem vacancy_of_origin (hcheck : checkPath path = .ok ()) (horigin : files.origin path = .error error) :
    files.vacancy path = .error error := by
  by_cases hnil : path.steps = []
  · rw [origin, if_pos (Path.slashes_of_steps hnil (not_isEmpty_of_checkPath hcheck)).1] at horigin
    cases horigin
  · have hreverse : path.steps.reverse = path.lastStep :: path.steps.dropLast.reverse := by
      conv_lhs => rw [Path.steps_eq_concat hnil]
      simp
    simp [vacancy, walkToLast, hcheck, hreverse, horigin, bind, Except.bind]

/-- A directory is made in the directory to which the steps before the last one lead. -/
theorem walkToLast_of_found (hcheck : checkPath path = .ok ()) (horigin : files.origin path = .ok start)
    (h : files.follow .find linkLimit start path.steps.dropLast = .ok (.found found)) :
    files.walkToLast path = .ok (found, path.lastStep) := by
  by_cases hnil : path.steps = []
  · have habsolute := (Path.slashes_of_steps hnil (not_isEmpty_of_checkPath hcheck)).1
    rw [origin, if_pos habsolute] at horigin
    cases horigin
    rw [hnil, List.dropLast_nil] at h
    cases h
    simp [walkToLast, hcheck, hnil, bind, Except.bind, pure, Except.pure, Path.lastStep]
  · exact walkToLast_eq_ok hcheck (Path.steps_eq_concat hnil) horigin h

/-- Nothing is made where the steps before the last one lead nowhere. -/
theorem vacancy_of_misses (hcheck : checkPath path = .ok ()) (horigin : files.origin path = .ok start)
    (h : Misses (files.follow .find linkLimit start path.steps.dropLast) error) : files.vacancy path = .error error := by
  by_cases hnil : path.steps = []
  · rw [hnil, List.dropLast_nil] at h
    obtain h | ⟨-, _, _, h⟩ := h <;> cases h
  · have hlast : files.walkToLast path = .error error := by
      have hreverse : path.steps.reverse = path.lastStep :: path.steps.dropLast.reverse := by
        conv_lhs => rw [Path.steps_eq_concat hnil]
        simp
      unfold walkToLast
      rw [hcheck, hreverse]
      obtain h | ⟨rfl, _, _, h⟩ := h
      · simp [horigin, h, bind, Except.bind]
      · simp [horigin, h, bind, Except.bind]
    rw [vacancy, hlast]
    rfl

theorem vacancy_of_error (hcheck : checkPath path = .ok ()) (horigin : files.origin path = .ok start)
    (h : files.follow .find linkLimit start (path.steps.dropLast ++ [.current]) = .error error) :
    files.vacancy path = .error error := by
  rcases found_or_misses (files.follow .find linkLimit start path.steps.dropLast) with ⟨found, hfound⟩ | ⟨error', hmisses⟩
  · by_cases hnode : ∃ mode entries, found.node = .directory mode entries
    · rw [(follow_stay_found_iff (by simp) (by simp)).2 ⟨hfound, hnode⟩] at h
      cases h
    · have hnode' : ∀ mode entries, found.node ≠ .directory mode entries := by simpa using hnode
      rw [follow_current_not_directory hfound hnode'] at h
      cases h
      rw [vacancy, walkToLast_of_found hcheck horigin hfound]
      obtain ⟨location, node, removed⟩ := found
      cases node with
      | directory mode entries => exact absurd rfl (hnode' mode entries)
      | _ => rfl
  · rw [follow_append_error (by simp) (by simp) hmisses, Except.error.injEq] at h
    exact h ▸ vacancy_of_misses hcheck horigin hmisses

/-- A walk to a directory finds it or fails. -/
theorem follow_current_cases (files : FileSystem) (links : Nat) (spot : Spot) (segments : List Segment) :
    (∃ found, files.follow .find links spot (segments ++ [.current]) = .ok (.found found)) ∨
      ∃ error, files.follow .find links spot (segments ++ [.current]) = .error error := by
  rcases found_or_misses (files.follow .find links spot segments) with ⟨found, hfound⟩ | ⟨error, hmisses⟩
  · by_cases hnode : ∃ mode entries, found.node = .directory mode entries
    · exact .inl ⟨found, (follow_stay_found_iff (by simp) (by simp)).2 ⟨hfound, hnode⟩⟩
    · exact .inr ⟨_, follow_current_not_directory hfound (by simpa using hnode)⟩
  · exact .inr ⟨error, follow_append_error (by simp) (by simp) hmisses⟩

end Making

end FileSystem

end ConsoleKit
