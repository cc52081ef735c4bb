import ConsoleKit.Proofs.Files.Segments
import Mathlib.Data.List.Induction

/-!
# The ancestors of a path of names

A path may be spelled with empty pieces and dots between its names, and its ancestors are read off the spelling. If the path
is one of names only, its proper ancestors are what it is up to each of its names (`mem_properAncestors`,
`exists_properAncestor`).
-/

namespace ConsoleKit.Path

variable {absolute : Bool} {path parent : Path} {piece : Bytes} {before reversed : List Bytes}
  {names front after : List FileName} {name : FileName}

theorem slash_notMem_splitOnPPrepend {bytes : Bytes} (h : slash ∉ piece) :
    ∀ piece' ∈ bytes.splitOnPPrepend (· == slash) piece, slash ∉ piece' := by
  induction bytes generalizing piece with
  | nil => simpa using h
  | cons byte bytes ih =>
    by_cases hbyte : byte = slash
    · rw [List.splitOnPPrepend_cons_pos (by simpa using hbyte)]
      intro piece' hpiece'
      rcases List.mem_cons.1 hpiece' with rfl | hpiece'
      · simpa using h
      · exact ih (by simp) piece' hpiece'
    · rw [List.splitOnPPrepend_cons_neg (by simpa using hbyte)]
      exact ih (by simp [h, Ne.symm hbyte])

theorem slash_notMem_pieces (path : Path) : ∀ piece ∈ path.pieces.reversed, slash ∉ piece := by
  have hsplit : ∀ bytes : Bytes, ∀ piece ∈ (bytes.splitOn slash).reverse, slash ∉ piece := by
    intro bytes piece hpiece
    exact slash_notMem_splitOnPPrepend (by simp) piece (List.mem_reverse.1 hpiece)
  obtain ⟨spelling⟩ := path
  unfold pieces
  cases spelling with
  | nil => simp
  | cons first rest =>
    dsimp only
    split
    · split
      · simp
      · exact hsplit rest
    · exact hsplit (first :: rest)

theorem steps_piece (h : slash ∉ piece) : (⟨piece⟩ : Path).steps = (Segment.ofPiece? piece).toList := by
  rw [steps_eq, List.splitOn_eq_singleton h]
  cases hpiece : Segment.ofPiece? piece <;> simp [hpiece]

theorem ofPiece?_eq_none_iff : Segment.ofPiece? piece = none ↔ piece = [] := by
  unfold Segment.ofPiece?
  split <;> simp_all

theorem ofPiece?_eq_entry {bytes : Bytes} (h : Segment.ofPiece? piece = some (.entry bytes)) : piece = bytes := by
  unfold Segment.ofPiece? at h
  split at h <;> grind

theorem steps_cons (absolute : Bool) (piece : Bytes) (before : List Bytes) :
    (Pieces.path ⟨absolute, piece :: before⟩).steps = (Pieces.path ⟨absolute, before⟩).steps ++ (⟨piece⟩ : Path).steps := by
  simp [steps_path]

theorem above_of_isBlank (h : Pieces.isBlank absolute piece before = true) :
    Pieces.above absolute (piece :: before) = Pieces.above absolute before := by
  rw [Pieces.above, if_pos h]

theorem above_of_not_isBlank (h : Pieces.isBlank absolute piece before = false) :
    Pieces.above absolute (piece :: before) = Pieces.trimmed absolute before :: Pieces.above absolute before := by
  rw [Pieces.above, if_neg (by simp [h])]

/-- Without steps there is no component to take away. -/
theorem above_eq_nil (h : (Pieces.path ⟨absolute, reversed⟩).steps = []) (hslash : ∀ piece ∈ reversed, slash ∉ piece) :
    Pieces.above absolute reversed = [] := by
  induction reversed with
  | nil => rfl
  | cons piece before ih =>
    rw [steps_cons, List.append_eq_nil_iff, steps_piece (hslash piece (by simp)), Option.toList_eq_nil_iff,
      ofPiece?_eq_none_iff] at h
    obtain ⟨hbefore, rfl⟩ := h
    rw [above_of_isBlank rfl]
    exact ih hbefore fun piece hpiece => hslash piece (.tail _ hpiece)

/-- A piece of a path of names is blank, or is the last of the names. -/
theorem along_concat_inv (h : (Pieces.path ⟨absolute, piece :: before⟩).steps = along (front ++ [name]))
    (hslash : slash ∉ piece) : piece = [] ∧ (Pieces.path ⟨absolute, before⟩).steps = along (front ++ [name]) ∨
      piece = name.bytes ∧ (Pieces.path ⟨absolute, before⟩).steps = along front := by
  rw [steps_cons, steps_piece hslash] at h
  cases hpiece : Segment.ofPiece? piece with
  | none =>
    rw [hpiece, Option.toList_none, List.append_nil] at h
    exact .inl ⟨ofPiece?_eq_none_iff.1 hpiece, h⟩
  | some segment =>
    rw [hpiece, Option.toList_some, along, List.map_append] at h
    obtain ⟨hbefore, hsegment⟩ := List.append_inj' h rfl
    refine .inr ⟨ofPiece?_eq_entry (hpiece.trans ?_), hbefore⟩
    rw [List.map_singleton, List.singleton_inj] at hsegment
    rw [hsegment]

/-- With the last name, the last component is taken away first. -/
theorem above_concat (h : (Pieces.path ⟨absolute, reversed⟩).steps = along (front ++ [name]))
    (hslash : ∀ piece ∈ reversed, slash ∉ piece) : ∃ before, before <:+ reversed ∧
      Pieces.above absolute reversed = Pieces.trimmed absolute before :: Pieces.above absolute before ∧
      (Pieces.path ⟨absolute, before⟩).steps = along front := by
  induction reversed with
  | nil => simp [steps_path, along] at h
  | cons piece before ih =>
    rcases along_concat_inv h (hslash piece (by simp)) with ⟨rfl, hbefore⟩ | ⟨rfl, hbefore⟩
    · obtain ⟨before', hsuffix, habove, hsteps⟩ := ih hbefore fun piece hpiece => hslash piece (.tail _ hpiece)
      exact ⟨before', hsuffix.trans (List.suffix_cons _ _), (above_of_isBlank rfl).trans habove, hsteps⟩
    · exact ⟨before, List.suffix_cons _ _, above_of_not_isBlank (isBlank_bytes absolute name before), hbefore⟩

/-- No blank piece among names counts as a step. -/
theorem steps_trimmed_of_along (h : (Pieces.path ⟨absolute, reversed⟩).steps = along names) :
    (Pieces.path ⟨absolute, Pieces.trimmed absolute reversed⟩).steps = along names := by
  obtain ⟨dots, hsteps, hdots⟩ := steps_path_trimmed absolute reversed
  have hnil : dots = [] := by
    refine List.eq_nil_iff_forall_not_mem.2 fun segment hsegment => ?_
    have hentry : segment ∈ along names := by
      rw [← h, hsteps]
      exact List.mem_append_right _ hsegment
    obtain ⟨name, -, rfl⟩ := List.mem_map.1 hentry
    cases hdots _ hsegment
  rw [← h, hsteps, hnil, List.append_nil]

theorem not_isBlank_of_trimmed (h : Pieces.trimmed absolute reversed = piece :: before) :
    Pieces.isBlank absolute piece before = false := by
  induction reversed with
  | nil => cases h
  | cons piece' before' ih =>
    unfold Pieces.trimmed at h
    split at h
    · exact ih h
    · rename_i hblank
      cases h
      simpa using hblank

theorem intercalate_concat (pieces : List Bytes) (piece : Bytes) :
    ∃ bytes, [slash].intercalate (pieces ++ [piece]) = bytes ++ piece := by
  induction pieces with
  | nil => exact ⟨[], by simp⟩
  | cons first pieces ih =>
    obtain ⟨bytes, hbytes⟩ := ih
    cases pieces with
    | nil => exact ⟨first ++ [slash], by simp [List.intercalate_cons_cons]⟩
    | cons second pieces =>
      rw [List.cons_append, List.cons_append, List.intercalate_cons_cons, ← List.cons_append, hbytes]
      exact ⟨first ++ [slash] ++ bytes, by simp⟩

/-- What is left after the blank pieces at the end are taken away does not end in a slash. -/
theorem endsInSlash_path_trimmed (hslash : ∀ piece ∈ reversed, slash ∉ piece) (hne : Pieces.trimmed absolute reversed ≠ []) :
    (Pieces.path ⟨absolute, Pieces.trimmed absolute reversed⟩).endsInSlash = false := by
  obtain ⟨piece, before, htrimmed⟩ := List.exists_cons_of_ne_nil hne
  have hpiece : piece ≠ [] := by
    rintro rfl
    cases not_isBlank_of_trimmed htrimmed
  have hlast : slash ∉ piece := hslash piece ((trimmed_suffix absolute reversed).subset (htrimmed ▸ List.mem_cons_self))
  obtain ⟨bytes, hbytes⟩ := intercalate_concat before.reverse piece
  have hspelling : ∃ bytes, (Pieces.path ⟨absolute, piece :: before⟩).spelling = bytes ++ piece := by
    unfold Pieces.path
    rw [List.reverse_cons, hbytes]
    cases absolute with
    | false => exact ⟨bytes, rfl⟩
    | true => exact ⟨slash :: bytes, rfl⟩
  obtain ⟨bytes', hspelling⟩ := hspelling
  have hgetLast : (bytes' ++ piece).getLast? = piece.getLast? := by
    rw [List.getLast?_append, Option.or_of_isSome (List.getLast?_isSome.2 hpiece)]
  unfold endsInSlash
  rw [htrimmed, hspelling, hgetLast, beq_eq_false_iff_ne]
  exact fun hslash => hlast (List.mem_of_getLast? hslash)

/-- Each proper ancestor of a path of names is what the path is up to one of the names. -/
theorem mem_above (h : (Pieces.path ⟨absolute, reversed⟩).steps = along names) (hslash : ∀ piece ∈ reversed, slash ∉ piece)
    {cut : List Bytes} (hcut : cut ∈ Pieces.above absolute reversed) : cut <:+ reversed ∧
      ∃ front name after, names = front ++ name :: after ∧ (Pieces.path ⟨absolute, cut⟩).steps = along front := by
  induction names using List.reverseRecOn generalizing reversed with
  | nil =>
    rw [above_eq_nil h hslash] at hcut
    cases hcut
  | append_singleton front name ih =>
    obtain ⟨before, hsuffix, habove, hsteps⟩ := above_concat h hslash
    rw [habove] at hcut
    rcases List.mem_cons.1 hcut with rfl | hcut
    · exact ⟨(trimmed_suffix absolute before).trans hsuffix, front, name, [], rfl, steps_trimmed_of_along hsteps⟩
    · have hslash' : ∀ piece ∈ before, slash ∉ piece := fun piece hpiece => hslash piece (hsuffix.subset hpiece)
      obtain ⟨hsuffix', front', name', after, rfl, hcut'⟩ := ih hsteps hslash' hcut
      exact ⟨hsuffix'.trans hsuffix, front', name', after ++ [name], by simp, hcut'⟩

/-- Up to each of its names, a path of names has a proper ancestor. -/
theorem exists_above (h : (Pieces.path ⟨absolute, reversed⟩).steps = along (front ++ name :: after))
    (hslash : ∀ piece ∈ reversed, slash ∉ piece) : ∃ cut ∈ Pieces.above absolute reversed, cut <:+ reversed ∧
      (Pieces.path ⟨absolute, cut⟩).steps = along front ∧
      (front ≠ [] → (Pieces.path ⟨absolute, cut⟩).endsInSlash = false) := by
  induction after using List.reverseRecOn generalizing reversed with
  | nil =>
    obtain ⟨before, hsuffix, habove, hsteps⟩ := above_concat h hslash
    have htrimmed := steps_trimmed_of_along hsteps
    refine ⟨_, habove ▸ List.mem_cons_self, (trimmed_suffix absolute before).trans hsuffix, htrimmed, fun hne => ?_⟩
    refine endsInSlash_path_trimmed (fun piece hpiece => hslash piece (hsuffix.subset hpiece)) fun hnil => hne ?_
    rw [hnil] at htrimmed
    simpa [steps_path, along] using htrimmed.symm
  | append_singleton after last ih =>
    rw [← List.cons_append, ← List.append_assoc] at h
    obtain ⟨before, hsuffix, habove, hsteps⟩ := above_concat h hslash
    obtain ⟨cut, hcut, hsuffix', hsteps', hends⟩ := ih hsteps fun piece hpiece => hslash piece (hsuffix.subset hpiece)
    exact ⟨cut, habove ▸ .tail _ hcut, hsuffix'.trans hsuffix, hsteps', hends⟩

theorem path_pieces_steps (path : Path) : (Pieces.path ⟨path.pieces.absolute, path.pieces.reversed⟩).steps = path.steps :=
  congrArg steps (path_pieces path)

theorem mem_properAncestors (h : path.steps = along names) (hparent : parent ∈ path.properAncestors) :
    parent.spelling <+: path.spelling ∧
      ∃ front name after, names = front ++ name :: after ∧ parent.steps = along front := by
  obtain ⟨cut, hcut, rfl⟩ := List.mem_map.1 hparent
  obtain ⟨reversed, hreversed, rfl⟩ := List.mem_map.1 hcut
  obtain ⟨hsuffix, hsteps⟩ := mem_above ((path_pieces_steps path).trans h) path.slash_notMem_pieces hreversed
  have hbegins := spelling_path_prefix path.pieces.absolute hsuffix
  rw [path_pieces] at hbegins
  exact ⟨hbegins, hsteps⟩

theorem exists_properAncestor (h : path.steps = along (front ++ name :: after)) : ∃ parent ∈ path.properAncestors,
    parent.spelling <+: path.spelling ∧ parent.steps = along front ∧ (front ≠ [] → parent.endsInSlash = false) := by
  obtain ⟨reversed, hreversed, hsuffix, hsteps, hends⟩ :=
    exists_above ((path_pieces_steps path).trans h) path.slash_notMem_pieces
  have hbegins := spelling_path_prefix path.pieces.absolute hsuffix
  rw [path_pieces] at hbegins
  exact ⟨_, List.mem_map_of_mem (List.mem_map_of_mem hreversed), hbegins, hsteps, hends⟩

end ConsoleKit.Path
