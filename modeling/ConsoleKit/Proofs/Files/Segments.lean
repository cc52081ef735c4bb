import ConsoleKit.Files.Path

/-!
# The segments of a longer path

The two views of a path, its segments and its pieces, under the operations by which paths grow and shrink: joining
names to a path adds an entry for each (`steps_joinAll`), and the parent of a joined path is the path that it was
joined to, without the blank pieces at its end (`ancestors_join`).
-/

namespace ConsoleKit.Path

/-! ## Pieces and segments -/

theorem Segment.consPiece_eq (reversed : Bytes) (rest : List Segment) :
    Segment.consPiece reversed rest = ([reversed.reverse].filterMap Segment.ofPiece?) ++ rest := by
  unfold Segment.consPiece
  cases h : Segment.ofPiece? reversed.reverse <;> simp [h]

theorem stepsFrom_eq (reversed bytes : Bytes) :
    stepsFrom reversed bytes = (bytes.splitOnPPrepend (· == slash) reversed).filterMap Segment.ofPiece? := by
  induction bytes generalizing reversed with
  | nil => rw [stepsFrom, Segment.consPiece_eq, List.append_nil, List.splitOnPPrepend_nil]
  | cons byte bytes ih =>
    unfold stepsFrom
    rw [List.splitOnPPrepend_cons_eq_if]
    by_cases h : byte = slash
    · rw [if_pos h, if_pos (by simpa using h), Segment.consPiece_eq, ih, List.splitOnPPrepend_nil_right]
      exact (List.filterMap_append (l := [reversed.reverse])).symm
    · rw [if_neg h, if_neg (by simpa using h), ih]

/-- The steps of a path are read off the pieces between its slashes. -/
theorem steps_eq (path : Path) : path.steps = (path.spelling.splitOn slash).filterMap Segment.ofPiece? := by
  unfold steps
  rw [stepsFrom_eq, List.splitOnPPrepend_nil_right, List.splitOn_eq_splitOnP]

theorem ofPiece?_bytes (name : FileName) : Segment.ofPiece? name.bytes = some (.entry name.bytes) := by
  obtain ⟨bytes, hnil, hcurrent, hparent, -, -, -⟩ := name
  match bytes with
  | [] => exact absurd rfl hnil
  | [byte] =>
    have hne : byte ≠ dot := fun h => hcurrent (by rw [h])
    simp [Segment.ofPiece?, hne]
  | [byte, byte'] =>
    have hne : ¬ (byte = dot ∧ byte' = dot) := fun h => hparent (by rw [h.1, h.2])
    simp [Segment.ofPiece?, hne]
  | _ :: _ :: _ :: _ => rfl

theorem splitOn_bytes (name : FileName) : name.bytes.splitOn slash = [name.bytes] :=
  List.splitOn_eq_singleton name.valid.slash_notMem

theorem steps_nil : (⟨[]⟩ : Path).steps = [] := rfl

theorem steps_of_isEmpty {path : Path} (h : path.isEmpty) : path.steps = [] := by
  obtain ⟨spelling⟩ := path
  obtain rfl : spelling = [] := by simpa [isEmpty] using h
  exact steps_nil

theorem steps_dot : (⟨[dot]⟩ : Path).steps = [.current] := rfl

theorem steps_append_slash (bytes bytes' : Bytes) :
    (⟨bytes ++ slash :: bytes'⟩ : Path).steps = (⟨bytes⟩ : Path).steps ++ (⟨bytes'⟩ : Path).steps := by
  rw [steps_eq, steps_eq, steps_eq, List.splitOn_append_cons_self, List.filterMap_append]

theorem steps_intercalate (pieces : List Bytes) :
    (⟨[slash].intercalate pieces⟩ : Path).steps = pieces.flatMap fun piece => (⟨piece⟩ : Path).steps := by
  induction pieces with
  | nil => rfl
  | cons piece pieces ih =>
    cases pieces with
    | nil => simp
    | cons piece' pieces =>
      rw [List.intercalate_cons_cons, List.append_assoc, List.singleton_append, steps_append_slash, ih,
        List.flatMap_cons (x := piece)]

theorem steps_bytes (name : FileName) : (⟨name.bytes⟩ : Path).steps = [.entry name.bytes] := by
  rw [steps_eq, splitOn_bytes]
  simp [ofPiece?_bytes]

/-! ## Joined paths -/

/-- Bytes with a name joined to them: the pieces are those of the bytes, without an empty one at the end, and the
name. -/
theorem splitOn_joined (bytes : Bytes) (name : FileName) (h : bytes ≠ []) :
    ∃ before, (if bytes.getLast? = some slash then bytes ++ name.bytes
        else bytes ++ slash :: name.bytes).splitOn slash = before ++ [name.bytes] ∧
      (bytes.splitOn slash = before ∨ bytes.splitOn slash = before ++ [[]]) := by
  by_cases hlast : bytes.getLast? = some slash
  · obtain ⟨front, rfl⟩ : ∃ front, bytes = front ++ [slash] :=
      ⟨bytes.dropLast, by
        rw [List.getLast?_eq_some_getLast h, Option.some.injEq] at hlast
        rw [← hlast, List.dropLast_concat_getLast]⟩
    refine ⟨front.splitOn slash, ?_, .inr ?_⟩
    · rw [if_pos hlast, List.append_assoc, List.singleton_append, List.splitOn_append_cons_self, splitOn_bytes]
    · rw [List.splitOn_append_cons_self, List.splitOn_nil]
  · refine ⟨bytes.splitOn slash, ?_, .inl rfl⟩
    rw [if_neg hlast, List.splitOn_append_cons_self, splitOn_bytes]

theorem head?_bytes (name : FileName) : ∃ byte bytes, name.bytes = byte :: bytes ∧ byte ≠ slash := by
  obtain ⟨bytes, hnil, -, -, hslash, -, -⟩ := name
  cases bytes with
  | nil => exact absurd rfl hnil
  | cons byte bytes => exact ⟨byte, bytes, rfl, fun h => hslash (h ▸ .head _)⟩

theorem getLast?_bytes (name : FileName) : name.bytes.getLast? ≠ some slash :=
  fun h => name.valid.slash_notMem (List.mem_of_getLast? h)

theorem join_spelling_ne_nil (path : Path) (name : FileName) : (path.join name).spelling ≠ [] := by
  obtain ⟨byte, bytes, hbytes, -⟩ := head?_bytes name
  unfold join
  split <;> simp [hbytes]

@[simp]
theorem isEmpty_join (path : Path) (name : FileName) : (path.join name).isEmpty = false := by
  simpa [isEmpty] using join_spelling_ne_nil path name

@[simp]
theorem endsInSlash_join (path : Path) (name : FileName) : (path.join name).endsInSlash = false := by
  have hlast := getLast?_bytes name
  have happend : ∀ front : Bytes, (front ++ name.bytes).getLast? = name.bytes.getLast? := by
    intro front
    rw [List.getLast?_append, List.getLast?_eq_some_getLast name.valid.ne_nil, Option.some_or]
  unfold join
  split
  · simpa [endsInSlash, happend] using hlast
  · unfold endsInSlash
    rw [List.append_cons, happend]
    simpa using hlast

theorem join_eq (path : Path) (name : FileName) (h : path.spelling ≠ []) :
    path.join name = ⟨if path.spelling.getLast? = some slash then path.spelling ++ name.bytes
      else path.spelling ++ slash :: name.bytes⟩ := by
  have hempty : path.isEmpty = false := by simpa [isEmpty] using h
  unfold join
  rw [hempty, Bool.false_or, endsInSlash]
  by_cases hlast : path.spelling.getLast? = some slash <;> simp [hlast]

/-- Joining a name to a path adds an entry to its steps. -/
theorem steps_join (path : Path) (name : FileName) : (path.join name).steps = path.steps ++ [.entry name.bytes] := by
  by_cases h : path.spelling = []
  · have hjoin : path.join name = ⟨name.bytes⟩ := by simp [join, isEmpty, h]
    have hsteps : path.steps = [] := by rw [steps, h]; rfl
    rw [hjoin, hsteps, steps_bytes, List.nil_append]
  · obtain ⟨before, hjoined, hbefore⟩ := splitOn_joined path.spelling name h
    rw [join_eq path name h, steps_eq, hjoined, steps_eq, List.filterMap_append]
    have hname : [name.bytes].filterMap Segment.ofPiece? = [.entry name.bytes] := by simp [ofPiece?_bytes]
    rcases hbefore with hbefore | hbefore
    · rw [hbefore, hname]
    · have hblank : [([] : Bytes)].filterMap Segment.ofPiece? = [] := rfl
      rw [hbefore, hname, List.filterMap_append, hblank, List.append_nil]

theorem segments_join (path : Path) (name : FileName) :
    (path.join name).segments = path.steps ++ [.entry name.bytes] := by
  unfold segments
  rw [endsInSlash_join, steps_join]
  simp

@[simp]
theorem isAbsolute_join (path : Path) (name : FileName) : (path.join name).isAbsolute = path.isAbsolute := by
  obtain ⟨byte, bytes, hbytes, hne⟩ := head?_bytes name
  obtain ⟨spelling⟩ := path
  cases spelling with
  | nil => simp [join, isEmpty, isAbsolute, hbytes, hne]
  | cons first rest =>
    unfold join
    split <;> simp [isAbsolute]

/-- What begins a path begins where the path begins. -/
theorem isAbsolute_of_isPrefix {path path' : Path} (h : path.spelling <+: path'.spelling) (hne : path.spelling ≠ []) :
    path.isAbsolute = path'.isAbsolute := by
  obtain ⟨rest, hrest⟩ := h
  unfold isAbsolute
  rw [← hrest]
  cases hspelling : path.spelling with
  | nil => exact absurd hspelling hne
  | cons first bytes => rfl


theorem spelling_prefix_join (path : Path) (name : FileName) : path.spelling <+: (path.join name).spelling := by
  unfold join
  split
  · exact List.prefix_append _ _
  · exact List.prefix_append _ _

theorem nul_notMem_join {path : Path} (h : (0 : UInt8) ∉ path.spelling) (name : FileName) :
    (0 : UInt8) ∉ (path.join name).spelling := by
  have hname := name.valid.nul_notMem
  have hslash : (0 : UInt8) ≠ slash := by decide
  unfold join
  split
  · simp only [List.mem_append, not_or]
    exact ⟨h, hname⟩
  · simp only [List.mem_append, List.mem_cons, not_or]
    exact ⟨h, hslash, hname⟩

theorem length_lt_join (path : Path) (name : FileName) : path.spelling.length < (path.join name).spelling.length := by
  have hpos : 0 < name.bytes.length := List.length_pos_iff.2 name.valid.ne_nil
  unfold join
  split
  · simp only [List.length_append]
    omega
  · simp only [List.length_append, List.length_cons]
    omega

@[simp]
theorem joinAll_nil (path : Path) : path.joinAll [] = path := rfl

theorem joinAll_cons (path : Path) (name : FileName) (names : List FileName) :
    path.joinAll (name :: names) = (path.join name).joinAll names := rfl

theorem joinAll_append (path : Path) (names names' : List FileName) :
    path.joinAll (names ++ names') = (path.joinAll names).joinAll names' :=
  List.foldl_append

theorem joinAll_concat (path : Path) (names : List FileName) (name : FileName) :
    path.joinAll (names ++ [name]) = (path.joinAll names).join name :=
  joinAll_append path names [name]

/-- The steps that lead along names. -/
def along (names : List FileName) : List Segment :=
  names.map fun name => .entry name.bytes

theorem steps_joinAll (path : Path) (names : List FileName) : (path.joinAll names).steps = path.steps ++ along names := by
  induction names generalizing path with
  | nil => simp [along]
  | cons name names ih =>
    rw [joinAll_cons, ih, steps_join]
    simp [along]

theorem segments_joinAll (path : Path) {names : List FileName} (h : names ≠ []) :
    (path.joinAll names).segments = path.steps ++ along names := by
  rcases List.eq_nil_or_concat names with rfl | ⟨names, name, rfl⟩
  · exact absurd rfl h
  · rw [List.concat_eq_append, joinAll_concat, segments_join, steps_joinAll]
    simp [along]

theorem isAbsolute_joinAll (path : Path) (names : List FileName) :
    (path.joinAll names).isAbsolute = path.isAbsolute := by
  induction names generalizing path with
  | nil => rfl
  | cons name names ih => rw [joinAll_cons, ih, isAbsolute_join]

theorem spelling_prefix_joinAll (path : Path) (names : List FileName) :
    path.spelling <+: (path.joinAll names).spelling := by
  induction names generalizing path with
  | nil => exact List.prefix_rfl
  | cons name names ih => exact (spelling_prefix_join path name).trans (ih _)

theorem isEmpty_joinAll (path : Path) {names : List FileName} (h : names ≠ []) :
    (path.joinAll names).isEmpty = false := by
  rcases List.eq_nil_or_concat names with rfl | ⟨names, name, rfl⟩
  · exact absurd rfl h
  · rw [List.concat_eq_append, joinAll_concat, isEmpty_join]

theorem nul_notMem_joinAll {path : Path} (h : (0 : UInt8) ∉ path.spelling) (names : List FileName) :
    (0 : UInt8) ∉ (path.joinAll names).spelling := by
  induction names generalizing path with
  | nil => exact h
  | cons name names ih => exact ih (nul_notMem_join h name)

/-- Joined to the same names, a path that is not longer stays so. -/
theorem length_joinAll_le {path path' : Path} (hempty : ¬ path'.isEmpty) (hslash : path'.endsInSlash = false)
    (hlength : path.spelling.length ≤ path'.spelling.length) (names : List FileName) :
    (path.joinAll names).spelling.length ≤ (path'.joinAll names).spelling.length := by
  induction names generalizing path path' with
  | nil => exact hlength
  | cons name names ih =>
    refine ih (by simp) (endsInSlash_join path' name) ?_
    rw [join, join, if_neg (show ¬ (path'.isEmpty || path'.endsInSlash) = true by simp [hempty, hslash])]
    split <;> simp only [List.length_append, List.length_cons] <;> omega

/-! ## Parents -/

theorem endsInSlash_joinAll {path : Path} (h : path.endsInSlash = false) (names : List FileName) :
    (path.joinAll names).endsInSlash = false := by
  rcases List.eq_nil_or_concat names with rfl | ⟨front, name, rfl⟩
  · exact h
  · rw [List.concat_eq_append, joinAll_concat, endsInSlash_join]

theorem not_isEmpty_joinAll {path : Path} (h : ¬ path.isEmpty) (names : List FileName) : ¬ (path.joinAll names).isEmpty := by
  by_cases hne : names = []
  · rwa [hne, joinAll_nil]
  · simp [isEmpty_joinAll path hne]


theorem pieces_eq (path : Path) :
    (path.pieces.absolute = true ∧ path.spelling = slash :: [slash].intercalate path.pieces.reversed.reverse) ∨
      path.pieces.absolute = false ∧ path.spelling = [slash].intercalate path.pieces.reversed.reverse := by
  obtain ⟨spelling⟩ := path
  cases spelling with
  | nil => exact .inr ⟨rfl, rfl⟩
  | cons first rest =>
    unfold pieces
    by_cases h : first = slash
    · refine .inl ?_
      subst h
      cases rest with
      | nil => exact ⟨rfl, rfl⟩
      | cons byte rest => simp [List.intercalate_splitOn]
    · refine .inr ?_
      simp [h, List.intercalate_splitOn]

theorem path_pieces (path : Path) : path.pieces.path = path := by
  obtain ⟨spelling⟩ := path
  rcases pieces_eq ⟨spelling⟩ with ⟨habs, h⟩ | ⟨habs, h⟩
  · unfold Pieces.path
    rw [habs]
    simp only [if_true, mk.injEq]
    exact h.symm
  · unfold Pieces.path
    rw [habs]
    simp only [Bool.false_eq_true, if_false, mk.injEq]
    exact h.symm

theorem steps_path (cut : Pieces) :
    cut.path.steps = cut.reversed.reverse.flatMap fun piece => (⟨piece⟩ : Path).steps := by
  unfold Pieces.path
  cases cut.absolute with
  | false => exact steps_intercalate _
  | true =>
    have hslash := steps_append_slash [] ([slash].intercalate cut.reversed.reverse)
    rw [steps_nil, List.nil_append, List.nil_append] at hslash
    exact hslash.trans (steps_intercalate _)

theorem isBlank_bytes (absolute : Bool) (name : FileName) (before : List Bytes) :
    Pieces.isBlank absolute name.bytes before = false := by
  have hnil : (name.bytes == []) = false := by simpa using name.valid.ne_nil
  have hcurrent : (name.bytes == [dot]) = false := by simpa using name.valid.ne_current
  unfold Pieces.isBlank
  rw [hnil, hcurrent]
  rfl

/-- Taking the blank pieces away takes nothing but empty pieces and dots. -/
theorem trimmed_spec (absolute : Bool) (reversed : List Bytes) :
    ∃ blanks, reversed = blanks ++ Pieces.trimmed absolute reversed ∧ ∀ piece ∈ blanks, piece = [] ∨ piece = [dot] := by
  induction reversed with
  | nil => exact ⟨[], rfl, by simp⟩
  | cons piece before ih =>
    obtain ⟨blanks, hbefore, hblanks⟩ := ih
    unfold Pieces.trimmed
    split
    · rename_i hblank
      refine ⟨piece :: blanks, congrArg (piece :: ·) hbefore, ?_⟩
      intro piece' hpiece'
      rcases List.mem_cons.1 hpiece' with rfl | hpiece'
      · simp only [Pieces.isBlank, Bool.or_eq_true, Bool.and_eq_true, beq_iff_eq] at hblank
        exact hblank.imp id (·.1)
      · exact hblanks piece' hpiece'
    · exact ⟨[], rfl, by simp⟩

/-- The path without the blank pieces at its end. -/
def trimmed (path : Path) : Path :=
  Pieces.path ⟨path.pieces.absolute, Pieces.trimmed path.pieces.absolute path.pieces.reversed⟩

theorem pieces_absolute {rest : Bytes} (h : rest ≠ []) :
    (⟨slash :: rest⟩ : Path).pieces = ⟨true, (rest.splitOn slash).reverse⟩ := by
  cases rest with
  | nil => exact absurd rfl h
  | cons byte rest => simp [pieces]

theorem pieces_relative {first : UInt8} (rest : Bytes) (h : first ≠ slash) :
    (⟨first :: rest⟩ : Path).pieces = ⟨false, ((first :: rest).splitOn slash).reverse⟩ := by
  simp [pieces, h]

theorem pieces_join (path : Path) (name : FileName) :
    ∃ before, (path.join name).pieces = ⟨path.pieces.absolute, name.bytes :: before⟩ ∧
      (path.pieces.reversed = before ∨ path.pieces.reversed = [] :: before) := by
  obtain ⟨byte, bytes, hbytes, hbyte⟩ := head?_bytes name
  have hname : name.bytes ≠ [] := name.valid.ne_nil
  obtain ⟨spelling⟩ := path
  rcases spelling with _ | ⟨first, rest⟩
  · -- The path without a spelling: the name is all there is.
    have hjoin : (⟨[]⟩ : Path).join name = ⟨byte :: bytes⟩ := by simp [join, isEmpty, hbytes]
    refine ⟨[], ?_, .inl rfl⟩
    rw [hjoin, pieces_relative bytes hbyte, ← hbytes, splitOn_bytes]
    rfl
  rw [join_eq _ _ (by simp)]
  by_cases hfirst : first = slash
  · subst hfirst
    rcases List.eq_nil_or_concat rest with rfl | ⟨_, _, hrest⟩
    · -- The root.
      refine ⟨[], ?_, .inl rfl⟩
      show (⟨slash :: name.bytes⟩ : Path).pieces = _
      rw [pieces_absolute hname, splitOn_bytes]
      rfl
    · have hne : rest ≠ [] := by simp [hrest]
      have hlast : (slash :: rest).getLast? = rest.getLast? := by
        rw [List.getLast?_cons_of_ne_nil hne]
      obtain ⟨before, hjoined, hbefore⟩ := splitOn_joined rest name hne
      refine ⟨before.reverse, ?_, ?_⟩
      · have hcons : (if (slash :: rest).getLast? = some slash then slash :: rest ++ name.bytes
            else slash :: rest ++ slash :: name.bytes) = slash :: (if rest.getLast? = some slash
              then rest ++ name.bytes else rest ++ slash :: name.bytes) := by
          rw [hlast]
          split <;> rfl
        rw [hcons, pieces_absolute (by split <;> simp [hname]), hjoined, pieces_absolute hne]
        simp
      · rw [pieces_absolute hne]
        rcases hbefore with hbefore | hbefore <;> simp [hbefore]
  · obtain ⟨before, hjoined, hbefore⟩ := splitOn_joined (first :: rest) name (by simp)
    refine ⟨before.reverse, ?_, ?_⟩
    · obtain ⟨rest', hrest'⟩ : ∃ rest', (if (first :: rest).getLast? = some slash then first :: rest ++ name.bytes
          else first :: rest ++ slash :: name.bytes) = first :: rest' := by
        split <;> exact ⟨_, rfl⟩
      rw [hrest', pieces_relative _ hfirst, ← hrest', hjoined, pieces_relative _ hfirst]
      simp
    · rw [pieces_relative _ hfirst]
      rcases hbefore with hbefore | hbefore <;> simp [hbefore]

/-- The parent of a joined path is the path that it was joined to, without the blank pieces at its end. -/
theorem ancestors_join (path : Path) (name : FileName) :
    ∃ parent above, (path.join name).pieces.ancestors = parent :: above ∧ parent.path = path.trimmed := by
  obtain ⟨before, hpieces, hbefore⟩ := pieces_join path name
  have htrimmed : Pieces.trimmed path.pieces.absolute path.pieces.reversed =
      Pieces.trimmed path.pieces.absolute before := by
    rcases hbefore with hbefore | hbefore
    · rw [hbefore]
    · rw [hbefore, Pieces.trimmed, if_pos (by simp [Pieces.isBlank])]
  rw [hpieces, Pieces.ancestors, Pieces.above, if_neg (by simp [isBlank_bytes]), List.map_cons]
  exact ⟨_, _, rfl, by rw [trimmed, htrimmed]⟩

theorem intercalate_isPrefix (pieces pieces' : List Bytes) :
    [slash].intercalate pieces <+: [slash].intercalate (pieces ++ pieces') := by
  induction pieces with
  | nil => exact List.nil_prefix
  | cons piece pieces ih =>
    cases pieces with
    | nil =>
      cases pieces' with
      | nil => exact List.prefix_rfl
      | cons piece' pieces' =>
        rw [List.singleton_append, List.intercalate_cons_cons, List.intercalate_singleton, List.append_assoc]
        exact List.prefix_append _ _
    | cons piece' pieces =>
      rw [List.cons_append, List.cons_append, List.intercalate_cons_cons, List.intercalate_cons_cons]
      exact List.prefix_append_right_inj _ |>.2 ih

/-- Fewer pieces at the end spell the beginning of the path. -/
theorem spelling_path_prefix (absolute : Bool) {before reversed : List Bytes} (h : before <:+ reversed) :
    (Pieces.path ⟨absolute, before⟩).spelling <+: (Pieces.path ⟨absolute, reversed⟩).spelling := by
  obtain ⟨last, rfl⟩ := h
  unfold Pieces.path
  simp only [List.reverse_append]
  split
  · exact (List.prefix_cons_inj _).2 (intercalate_isPrefix _ _)
  · exact intercalate_isPrefix _ _

theorem trimmed_suffix (absolute : Bool) (reversed : List Bytes) : Pieces.trimmed absolute reversed <:+ reversed := by
  obtain ⟨blanks, hreversed, -⟩ := trimmed_spec absolute reversed
  exact ⟨blanks, hreversed.symm⟩

theorem spelling_trimmed_prefix (path : Path) : path.trimmed.spelling <+: path.spelling := by
  have hbegins := spelling_path_prefix path.pieces.absolute
    (trimmed_suffix path.pieces.absolute path.pieces.reversed)
  rwa [path_pieces] at hbegins

/-- What is trimmed away leads nowhere else: dots are all the steps that it has. -/
theorem steps_path_trimmed (absolute : Bool) (reversed : List Bytes) : ∃ dots,
    (Pieces.path ⟨absolute, reversed⟩).steps = (Pieces.path ⟨absolute, Pieces.trimmed absolute reversed⟩).steps ++ dots ∧
      ∀ segment ∈ dots, segment = .current := by
  obtain ⟨blanks, hreversed, hblanks⟩ := trimmed_spec absolute reversed
  refine ⟨blanks.reverse.flatMap fun piece => (⟨piece⟩ : Path).steps, ?_, ?_⟩
  · have hreverse : reversed.reverse = (Pieces.trimmed absolute reversed).reverse ++ blanks.reverse := by
      rw [← List.reverse_append, ← hreversed]
    rw [steps_path, hreverse, List.flatMap_append, steps_path]
  · intro segment hsegment
    obtain ⟨piece, hpiece, hmem⟩ := List.mem_flatMap.1 hsegment
    rcases hblanks piece (List.mem_reverse.1 hpiece) with rfl | rfl
    · rw [steps_nil] at hmem
      cases hmem
    · rw [steps_dot] at hmem
      simpa using hmem

theorem steps_trimmed (path : Path) :
    ∃ dots, path.steps = path.trimmed.steps ++ dots ∧ ∀ segment ∈ dots, segment = .current := by
  have hsteps := steps_path_trimmed path.pieces.absolute path.pieces.reversed
  rwa [path_pieces] at hsteps

end ConsoleKit.Path
