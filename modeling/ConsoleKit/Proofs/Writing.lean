import ConsoleKit.Rendering

/-!
# What a writer has taken

A writer takes bytes in order, in however many calls, as long as it has room for them, and then refuses. `Took` says what
the writer before and the writer after have to do with each other, and `Answers` what comes of bytes that are all to be
written. Both go on with what is written next (`Answers.append`), so that what holds of one call holds of all bytes
(`writeAll_answers`) and of all pieces of a reply (`writePieces_answers`).
-/

namespace ConsoleKit

namespace Writer

@[simp]
theorem written_accept (writer : Writer) (taken : Bytes) :
    (writer.accept taken).written = writer.written ++ taken := by
  simp [written, accept]

/-- There is room for all of the bytes. -/
def HasRoom (writer : Writer) (bytes : Bytes) : Prop :=
  ∀ room, writer.room = some room → bytes.length ≤ room

/-- What a writer comes to say when it has no room left. -/
def refusalText (writer : Writer) : String :=
  writer.refusal.getD notWritten

/-- A writer has taken just some bytes more, and is otherwise as before as far as it can be told. -/
structure Took (writer : Writer) (bytes : Bytes) (writer' : Writer) : Prop where
  /-- What has been written. -/
  written : writer'.written = writer.written ++ bytes
  /-- There is less room by what was written. -/
  room : writer'.room = writer.room.map (· - bytes.length)
  /-- A call takes as much as before. -/
  chunk : writer'.chunk = writer.chunk
  /-- A refusal is as before. -/
  refusal : writer'.refusal = writer.refusal
  /-- A flush fares as before. -/
  flushFailure : writer'.flushFailure = writer.flushFailure
  /-- No flush was asked for. -/
  flushes : writer'.flushes = writer.flushes

/-- What comes of bytes that are all to be written: those are taken for which there is room, and it is a failure if that
is not all of them. -/
structure Answers (writer : Writer) (bytes : Bytes) (outcome : Except String Unit × Writer) : Prop where
  /-- The bytes are taken for which there is room. -/
  took : writer.Took (takeUpTo writer.room bytes) outcome.2
  /-- With room for all, it is a success. -/
  ok : writer.HasRoom bytes → outcome.1 = .ok ()
  /-- Without, it is a refusal. -/
  error : ¬ writer.HasRoom bytes → outcome.1 = .error writer.refusalText

section

variable {writer writer' writer'' : Writer} {bytes bytes' : Bytes} {outcome : Except String Unit × Writer}

/-! ## Room -/

theorem hasRoom_nil (writer : Writer) : writer.HasRoom [] :=
  fun room _ => Nat.zero_le room

theorem not_hasRoom_of_full {byte : UInt8} (h : writer.room = some 0) : ¬ writer.HasRoom (byte :: bytes) := by
  intro hroom
  have hlength := hroom 0 h
  rw [List.length_cons] at hlength
  omega

theorem hasRoom_of_unlimited (h : writer.room = none) (bytes : Bytes) : writer.HasRoom bytes := by
  intro room hroom
  rw [h] at hroom
  cases hroom

theorem takeUpTo_nil (limit : Option Nat) : takeUpTo limit [] = [] := by
  cases limit with
  | none => rfl
  | some most => exact List.take_nil

theorem takeUpTo_of_hasRoom (h : writer.HasRoom bytes) : takeUpTo writer.room bytes = bytes := by
  cases hroom : writer.room with
  | none => rfl
  | some room => exact List.take_of_length_le (h room hroom)

/-- What does not have room as a whole has none with more behind it either. -/
theorem takeUpTo_append_of_not (h : ¬ writer.HasRoom bytes) :
    takeUpTo writer.room (bytes ++ bytes') = takeUpTo writer.room bytes := by
  cases hroom : writer.room with
  | none => exact absurd (hasRoom_of_unlimited hroom bytes) h
  | some room =>
    have hexceeds : ¬ bytes.length ≤ room := by
      intro hfits
      apply h
      intro room' hroom'
      rw [hroom, Option.some.injEq] at hroom'
      omega
    exact List.take_append_of_le_length (Nat.le_of_not_le hexceeds)

/-- A limit that is not zero lets something of something through. -/
theorem takeUpTo_cons {limit : Option Nat} (h : limit ≠ some 0) (byte : UInt8) (bytes : Bytes) :
    ∃ count, takeUpTo limit (byte :: bytes) = byte :: bytes.take count ∧ count ≤ bytes.length ∧
      ∀ most, limit = some most → count < most := by
  match limit with
  | none => exact ⟨bytes.length, by rw [takeUpTo, List.take_length], Nat.le_refl _, fun most hmost => by cases hmost⟩
  | some 0 => exact absurd rfl h
  | some (most + 1) =>
    have htake : bytes.take (min most bytes.length) = bytes.take most := by
      rw [List.take_eq_take_iff]
      omega
    refine ⟨min most bytes.length, by rw [htake]; rfl, Nat.min_le_right _ _, fun most' hmost => ?_⟩
    cases hmost
    omega

/-! ## One thing after the other -/

theorem Took.nothing (writer : Writer) : writer.Took [] writer where
  written := (List.append_nil _).symm
  room := by cases writer.room <;> rfl
  chunk := rfl
  refusal := rfl
  flushFailure := rfl
  flushes := rfl

theorem Took.trans (h : writer.Took bytes writer') (h' : writer'.Took bytes' writer'') :
    writer.Took (bytes ++ bytes') writer'' where
  written := by rw [h'.written, h.written, List.append_assoc]
  room := by
    rw [h'.room, h.room, Option.map_map]
    congr 1
    funext room
    show room - bytes.length - bytes'.length = room - (bytes ++ bytes').length
    rw [List.length_append]
    omega
  chunk := h'.chunk.trans h.chunk
  refusal := h'.refusal.trans h.refusal
  flushFailure := h'.flushFailure.trans h.flushFailure
  flushes := h'.flushes.trans h.flushes

theorem took_accept (writer : Writer) (taken : Bytes) : writer.Took taken (writer.accept taken) :=
  ⟨written_accept writer taken, rfl, rfl, rfl, rfl, rfl⟩

/-- Behind bytes that were taken, there is room for what there is room for with them in front. -/
theorem Took.hasRoom_iff (h : writer.Took bytes writer') (hroom : writer.HasRoom bytes) :
    writer'.HasRoom bytes' ↔ writer.HasRoom (bytes ++ bytes') := by
  unfold HasRoom
  rw [h.room]
  cases hlimit : writer.room with
  | none => simp
  | some room =>
    have hfits := hroom room hlimit
    simp only [Option.map_some, Option.some.injEq, forall_eq', List.length_append]
    omega

theorem Took.takeUpTo_eq (h : writer.Took bytes writer') (hroom : writer.HasRoom bytes) :
    bytes ++ takeUpTo writer'.room bytes' = takeUpTo writer.room (bytes ++ bytes') := by
  rw [h.room]
  cases hlimit : writer.room with
  | none => rfl
  | some room =>
    show bytes ++ bytes'.take (room - bytes.length) = (bytes ++ bytes').take room
    rw [List.take_append, List.take_of_length_le (hroom room hlimit)]

/-- Bytes that were taken do not change what comes of the bytes behind them. -/
theorem Answers.append (h : writer'.Answers bytes' outcome) (htook : writer.Took bytes writer')
    (hroom : writer.HasRoom bytes) : writer.Answers (bytes ++ bytes') outcome where
  took := by
    rw [← htook.takeUpTo_eq hroom]
    exact htook.trans h.took
  ok hfits := h.ok ((htook.hasRoom_iff hroom).2 hfits)
  error hexceeds := by
    have hrefusal : writer'.refusalText = writer.refusalText := by rw [refusalText, refusalText, htook.refusal]
    rw [← hrefusal]
    exact h.error fun hfits => hexceeds ((htook.hasRoom_iff hroom).1 hfits)

/-- Once there is no room, nothing comes of the bytes behind. -/
theorem Answers.append_of_not (h : writer.Answers bytes outcome) (hroom : ¬ writer.HasRoom bytes) (bytes' : Bytes) :
    writer.Answers (bytes ++ bytes') outcome where
  took := by
    rw [takeUpTo_append_of_not hroom]
    exact h.took
  ok hfits := by
    refine absurd (fun room hlimit => ?_) hroom
    have hlength := hfits room hlimit
    rw [List.length_append] at hlength
    omega
  error _ := h.error hroom

/-! ## Calls -/

/-- One call takes a beginning of what is offered for which there is room, and not nothing of something. -/
theorem write_of_room (hchunk : writer.chunk ≠ some 0) (hroom : writer.room ≠ some 0) (byte : UInt8) (bytes : Bytes) :
    ∃ count, writer.write (byte :: bytes) = (.ok (count + 1), writer.accept (byte :: bytes.take count)) ∧
      writer.HasRoom (byte :: bytes.take count) := by
  obtain ⟨offered, hoffered, hle, -⟩ := takeUpTo_cons hchunk byte bytes
  obtain ⟨count, hcount, hcount_le, hfits⟩ := takeUpTo_cons hroom byte (bytes.take offered)
  rw [List.length_take] at hcount_le
  have htake : (bytes.take offered).take count = bytes.take count := by
    rw [List.take_take, Nat.min_eq_left (by omega)]
  have hportion : writer.portion (byte :: bytes) = byte :: bytes.take count := by
    rw [portion, hoffered, hcount, htake]
  have hlength : (bytes.take count).length = count := by
    rw [List.length_take]
    omega
  refine ⟨count, ?_, fun room hlimit => ?_⟩
  · simp only [write, hroom, if_false, hportion, List.length_cons, hlength]
  · have hlt := hfits room hlimit
    rw [List.length_cons, hlength]
    omega

/-- A writer without room refuses, or takes nothing. -/
theorem write_of_full (hroom : writer.room = some 0) (bytes : Bytes) :
    writer.write bytes = (match writer.refusal with | some text => .error text | none => .ok 0, writer) := by
  rw [write, if_pos hroom]
  cases writer.refusal <;> rfl

theorem answers_of_full (hroom : writer.room = some 0) (byte : UInt8) (bytes : Bytes) :
    writer.Answers (byte :: bytes) (.error writer.refusalText, writer) where
  took := by
    rw [hroom]
    exact Took.nothing writer
  ok hfits := absurd hfits (not_hasRoom_of_full hroom)
  error _ := rfl

/-- **A writer takes the bytes for which it has room.** The induction goes along the calls: each takes a beginning of what
is left, or finds no room. -/
theorem writeAll_answers (hchunk : writer.chunk ≠ some 0) (bytes : Bytes) :
    writer.Answers bytes (writer.writeAll bytes) := by
  fun_induction Writer.writeAll writer bytes with
  | case1 writer =>
    refine ⟨?_, fun _ => rfl, fun hexceeds => absurd writer.hasRoom_nil hexceeds⟩
    rw [takeUpTo_nil]
    exact Took.nothing writer
  | case2 writer byte bytes text writer' hwrite =>
    by_cases hroom : writer.room = some 0
    · have htext : writer.refusalText = text ∧ writer = writer' := by
        rw [write_of_full hroom] at hwrite
        cases hrefusal : writer.refusal <;> simp_all [refusalText]
      obtain ⟨rfl, rfl⟩ := htext
      exact answers_of_full hroom byte bytes
    · obtain ⟨count, hcall, -⟩ := write_of_room hchunk hroom byte bytes
      simp [hcall] at hwrite
  | case3 writer byte bytes writer' hwrite =>
    by_cases hroom : writer.room = some 0
    · have htext : writer.refusalText = notWritten ∧ writer = writer' := by
        rw [write_of_full hroom] at hwrite
        cases hrefusal : writer.refusal <;> simp_all [refusalText]
      obtain ⟨htext, rfl⟩ := htext
      rw [← htext]
      exact answers_of_full hroom byte bytes
    · obtain ⟨count, hcall, -⟩ := write_of_room hchunk hroom byte bytes
      simp [hcall] at hwrite
  | case4 writer byte bytes count writer' hwrite ih =>
    by_cases hroom : writer.room = some 0
    · rw [write_of_full hroom] at hwrite
      cases hrefusal : writer.refusal <;> simp [hrefusal] at hwrite
    · obtain ⟨count', hcall, hfits⟩ := write_of_room hchunk hroom byte bytes
      obtain ⟨rfl, rfl⟩ : count' = count ∧ writer.accept (byte :: bytes.take count') = writer' := by
        simpa [hcall] using hwrite
      have hboth := (ih hchunk).append (took_accept writer _) hfits
      rwa [List.cons_append, List.take_append_drop] at hboth

/-- **The pieces of a text are written as the whole of it.** -/
theorem writePieces_answers (hchunk : writer.chunk ≠ some 0) (pieces : List Bytes) :
    writer.Answers pieces.flatten (writer.writePieces pieces) := by
  induction pieces generalizing writer with
  | nil =>
    refine ⟨?_, fun _ => rfl, fun hexceeds => absurd writer.hasRoom_nil hexceeds⟩
    rw [List.flatten_nil, takeUpTo_nil]
    exact Took.nothing writer
  | cons piece pieces ih =>
    have hpiece := writeAll_answers hchunk piece
    rw [List.flatten_cons, writePieces]
    rcases houtcome : writer.writeAll piece with ⟨result, writer'⟩
    rw [houtcome] at hpiece
    by_cases hroom : writer.HasRoom piece
    · obtain rfl : result = .ok () := hpiece.ok hroom
      have htook := hpiece.took
      rw [takeUpTo_of_hasRoom hroom] at htook
      have hchunk' : writer'.chunk ≠ some 0 := by
        rw [htook.chunk]
        exact hchunk
      exact (ih hchunk').append htook hroom
    · obtain rfl : result = .error writer.refusalText := hpiece.error hroom
      exact hpiece.append_of_not hroom pieces.flatten

end

/-! ## A whole reply -/

/-- A writer that takes everything in the end: there is no limit in all, and every call takes something. -/
structure Unlimited (writer : Writer) : Prop where
  /-- There is no limit in all. -/
  room : writer.room = none
  /-- No call is limited to nothing. -/
  chunk : writer.chunk ≠ some 0

end Writer

namespace Frame

open Writer (takeUpTo)

variable {writer : Writer}

/-- Where there is room for a reply, the writer is flushed once it is written. -/
theorem print_of_hasRoom (frame : Frame) (hchunk : writer.chunk ≠ some 0) (hroom : writer.HasRoom frame.rendering) :
    ∃ writer', writer.Took frame.rendering writer' ∧ frame.print writer = writer'.flush := by
  have hanswers := Writer.writePieces_answers hchunk frame.pieces
  have htook := hanswers.took
  have hok := hanswers.ok hroom
  rw [show frame.pieces.flatten = frame.rendering from rfl, Writer.takeUpTo_of_hasRoom hroom] at htook
  rcases houtcome : writer.writePieces frame.pieces with ⟨result, writer'⟩
  rw [houtcome] at htook hok
  obtain rfl : result = .ok () := hok
  refine ⟨writer', htook, ?_⟩
  rw [print, houtcome]

/-- Where there is not, the writer refuses, and is not flushed. -/
theorem print_of_not_hasRoom (frame : Frame) (hchunk : writer.chunk ≠ some 0) (hroom : ¬ writer.HasRoom frame.rendering) :
    ∃ writer', writer.Took (takeUpTo writer.room frame.rendering) writer' ∧
      frame.print writer = (.error writer.refusalText, writer') := by
  have hanswers := Writer.writePieces_answers hchunk frame.pieces
  have htook := hanswers.took
  have herror := hanswers.error hroom
  rcases houtcome : writer.writePieces frame.pieces with ⟨result, writer'⟩
  rw [houtcome] at htook herror
  obtain rfl : result = .error writer.refusalText := herror
  refine ⟨writer', htook, ?_⟩
  rw [print, houtcome]

/-- A writer without a limit is left with the whole reply, however a flush fares. -/
theorem written_print_unlimited (frame : Frame) (h : writer.Unlimited) :
    (frame.print writer).2.written = writer.written ++ frame.rendering := by
  obtain ⟨writer', htook, hprint⟩ := frame.print_of_hasRoom h.chunk (Writer.hasRoom_of_unlimited h.room _)
  rw [hprint, ← htook.written, Writer.flush]
  cases writer'.flushFailure <;> rfl

/-- **A writer without a limit is left with the whole reply.** -/
theorem print_unlimited (frame : Frame) (h : writer.Unlimited) (hflush : writer.flushFailure = none) :
    ∃ writer', frame.print writer = (.ok (), writer') ∧ writer'.written = writer.written ++ frame.rendering := by
  obtain ⟨writer', htook, hprint⟩ := frame.print_of_hasRoom h.chunk (Writer.hasRoom_of_unlimited h.room _)
  refine ⟨{ writer' with flushes := writer'.flushes + 1 }, ?_, htook.written⟩
  simp only [hprint, Writer.flush, htook.flushFailure, hflush]

end Frame

end ConsoleKit
