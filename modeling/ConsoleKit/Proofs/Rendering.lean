import ConsoleKit.Proofs.Text.Subparts
import ConsoleKit.Proofs.Writing

/-!
# What a printed reply comes to

A reply is written in pieces, and each piece in as many calls as the writer needs; what is written in the end is the UTF-8
form of one text (`rendering_eq`), as far as the writer has room for it (`print_onto`). The notice and the content share
that text without quotes. Two replies are therefore told apart by it, with one exception: a successful reply can itself
begin with the notice (`written_print_eq_iff`). A content need not be text; what can be read of it is printed as it is, and
only the rest is lost (`text_lossless`).
-/

namespace ConsoleKit.Frame

open Text
open Writer (takeUpTo)

/-- The text that is printed for a reply: its own text and a newline, behind the line that says so if it failed. -/
def printedText (frame : Frame) : List Char :=
  (if frame.success then [] else "Request failed\n".toList) ++ frame.text ++ ['\n']

/-- The pieces of a reply make up its printed text. -/
theorem rendering_eq (frame : Frame) : frame.rendering = Utf8.encode frame.printedText := by
  have hnotice : Utf8.encodeString failureNotice ++ newline = Utf8.encode "Request failed\n".toList := rfl
  have hend : newline = Utf8.encode ['\n'] := rfl
  rw [printedText, Utf8.encode_append, Utf8.encode_append, ← hend]
  cases hsuccess : frame.success with
  | true => simp [rendering, pieces, hsuccess]
  | false =>
    rw [if_neg (by simp), ← hnotice]
    simp [rendering, pieces, hsuccess]

/-! ## A writer that may fail -/

/-- **Printing to a writer that may fail.** A writer is left with the first bytes of the printed text for which it has room,
however it takes them. If it has room for all of them it is flushed once, and the print fares as the flush does. Otherwise it
is not flushed, and the print fails with what the writer says, or because it takes nothing more. -/
theorem print_onto (frame : Frame) (writer : Writer) (hchunk : writer.chunk ≠ some 0) :
    let output := Utf8.encode frame.printedText
    let outcome := frame.print writer
    outcome.2.written = writer.written ++ takeUpTo writer.room output ∧
    ((∀ room, writer.room = some room → output.length ≤ room) →
      outcome.2.flushes = writer.flushes + 1 ∧
      (writer.flushFailure = none → outcome.1 = .ok ()) ∧
      (∀ text, writer.flushFailure = some text → outcome.1 = .error text)) ∧
    (∀ room, writer.room = some room → room < output.length →
      outcome.2.flushes = writer.flushes ∧
      (writer.refusal = none → outcome.1 = .error "failed to write whole buffer") ∧
      (∀ text, writer.refusal = some text → outcome.1 = .error text)) := by
  intro output outcome
  have hrendering : frame.rendering = output := frame.rendering_eq
  by_cases hroom : writer.HasRoom frame.rendering
  · obtain ⟨writer', htook, hprint⟩ := frame.print_of_hasRoom hchunk hroom
    have houtcome : outcome = writer'.flush := hprint
    rw [hrendering] at htook hroom
    refine ⟨?_, fun _ => ⟨?_, fun hnone => ?_, fun text htext => ?_⟩, fun room hlimit hexceeds => ?_⟩
    · rw [Writer.takeUpTo_of_hasRoom hroom, ← htook.written, houtcome, Writer.flush]
      cases writer'.flushFailure <;> rfl
    · rw [← htook.flushes, houtcome, Writer.flush]
      cases writer'.flushFailure <;> rfl
    · rw [houtcome, Writer.flush, htook.flushFailure, hnone]
    · rw [houtcome, Writer.flush, htook.flushFailure, htext]
    · exact absurd (hroom room hlimit) (Nat.not_le.2 hexceeds)
  · obtain ⟨writer', htook, hprint⟩ := frame.print_of_not_hasRoom hchunk hroom
    have houtcome : outcome = (.error writer.refusalText, writer') := hprint
    rw [hrendering] at htook hroom
    refine ⟨?_, fun hfits => absurd hfits hroom, fun _ _ _ => ⟨?_, fun hnone => ?_, fun text htext => ?_⟩⟩
    · rw [houtcome, htook.written]
    · rw [houtcome, htook.flushes]
    · rw [houtcome, Writer.refusalText, hnone]
      rfl
    · rw [houtcome, Writer.refusalText, htext]
      rfl

/-- A failed reply with the content `é`, in 18 bytes. -/
def failedAccent : Frame :=
  ⟨false, 2, [0xC3, 0xA9]⟩

/-- With room for 16 bytes the writer is left with the notice and one of the two bytes of `é`. With room for 18, all is written,
and it is up to the flush. -/
theorem print_onto_failedAccent :
    let short : Writer := { room := some 16, chunk := some 3, refusal := some "full" }
    let exact : Writer := { room := some 18, chunk := some 5, flushFailure := some "gone" }
    (failedAccent.print short).2.written = Utf8.encodeString "Request failed\n" ++ [0xC3] ∧
    (failedAccent.print short).2.flushes = 0 ∧ (failedAccent.print short).1 = .error "full" ∧
    (failedAccent.print exact).2.written = Utf8.encodeString "Request failed\né\n" ∧
    (failedAccent.print exact).2.flushes = 1 ∧ (failedAccent.print exact).1 = .error "gone" := by
  intro short exact
  have houtput : Utf8.encode failedAccent.printedText = Utf8.encodeString "Request failed\né\n" := rfl
  have hlength : (Utf8.encodeString "Request failed\né\n").length = 18 := rfl
  have htake : (Utf8.encodeString "Request failed\né\n").take 16 = Utf8.encodeString "Request failed\n" ++ [0xC3] := rfl
  obtain ⟨hwritten, -, hexceeds⟩ := print_onto failedAccent short (by decide)
  obtain ⟨hwritten', hfits, -⟩ := print_onto failedAccent exact (by decide)
  rw [houtput] at hwritten hwritten' hexceeds hfits
  obtain ⟨hflushes, -, hrefused⟩ := hexceeds 16 rfl (by rw [hlength]; decide)
  obtain ⟨hflushes', -, hfailed⟩ := hfits fun room hroom => by
    cases hroom
    omega
  have hall : takeUpTo exact.room (Utf8.encodeString "Request failed\né\n") =
      Utf8.encodeString "Request failed\né\n" := List.take_of_length_le (Nat.le_of_eq hlength)
  exact ⟨hwritten.trans htake, hflushes, hrefused "full" rfl, hwritten'.trans hall, hflushes', hfailed "gone" rfl⟩

/-! ## What can be told from the output -/

/-- Behind the same notice, or none, texts are printed alike only if they are the same. Behind different ones, the
successful text has to begin with the notice. -/
theorem printedText_eq_iff (f g : Frame) : f.printedText = g.printedText ↔
    f.success = g.success ∧ f.text = g.text ∨
    f.success = true ∧ g.success = false ∧ f.text = "Request failed\n".toList ++ g.text ∨
    f.success = false ∧ g.success = true ∧ g.text = "Request failed\n".toList ++ f.text := by
  unfold printedText
  rw [List.append_cancel_right_eq]
  cases hf : f.success with
  | true =>
    cases hg : g.success with
    | true => simp
    | false => simp
  | false =>
    cases hg : g.success with
    | true => simp [eq_comm]
    | false => simp

/-- **What a reader can tell from a printed reply.** Two replies are printed alike if and only if they are both successful or
both failed and have the same text, or one is successful, the other is not, and the text of the successful one is the notice, a
newline, and the text of the other. -/
theorem written_print_eq_iff (f g : Frame) {writer writer' : Writer} (h : writer.Unlimited) (h' : writer'.Unlimited)
    (hwritten : writer.written = writer'.written) :
    (f.print writer).2.written = (g.print writer').2.written ↔
      f.success = g.success ∧ f.text = g.text ∨
      f.success = true ∧ g.success = false ∧ f.text = "Request failed\n".toList ++ g.text ∨
      f.success = false ∧ g.success = true ∧ g.text = "Request failed\n".toList ++ f.text := by
  rw [f.written_print_unlimited h, g.written_print_unlimited h', hwritten, List.append_cancel_left_eq, f.rendering_eq,
    g.rendering_eq, Utf8.encode_inj, printedText_eq_iff]

/-- A successful reply whose content is what is printed for another one without content that failed. -/
def disguised : Frame :=
  ⟨true, 15, Utf8.encodeString "Request failed\n"⟩

/-- The two are printed alike, byte by byte or not; neither is printed as an empty successful reply is. -/
theorem written_print_eq_disguised :
    let whole : Writer := {}
    let bytewise : Writer := { chunk := some 1 }
    (disguised.print whole).2.written = ((decode [0]).print bytewise).2.written ∧
    (disguised.print whole).2.written ≠ ((decode [1]).print bytewise).2.written := by
  intro whole bytewise
  have hwhole : whole.Unlimited := ⟨rfl, by decide⟩
  have hbytewise : bytewise.Unlimited := ⟨rfl, by decide⟩
  have htext : disguised.text = "Request failed\n".toList := rfl
  constructor
  · apply (written_print_eq_iff disguised (decode [0]) hwhole hbytewise rfl).2
    exact .inr (.inl ⟨rfl, rfl, htext⟩)
  · intro heq
    have halike := (written_print_eq_iff disguised (decode [1]) hwhole hbytewise rfl).1 heq
    rcases halike with ⟨-, hsame⟩ | ⟨-, hfailed, -⟩ | ⟨hfailed, -⟩
    · rw [htext] at hsame
      cases hsame
    · cases hfailed
    · cases hfailed

/-! ## Content that need not be text -/

/-- **A content is printed without loss where that is possible.** What is printed for a content is UTF-8: the content taken apart,
in the one way that there is, into characters and maximal ill-formed subparts, each character as it is and each subpart as one
U+FFFD. So a content in UTF-8 is printed byte for byte, one that begins with UTF-8 as that beginning and then the rest, and what was
printed once is printed the same again. -/
theorem text_lossless :
    (∀ data : Bytes,
      let frame := decode data
      (frame.print {}).2.written =
        (if frame.success then [] else Utf8.encodeString "Request failed\n") ++ Utf8.encode frame.text ++ [0x0A] ∧
      (Utf8.encode frame.text).toByteArray.IsValidUTF8 ∧
      ∃ parts, Utf8.encode frame.text = parts.flatMap Utf8.Part.shown ∧
        ∀ other, Utf8.Decomposition frame.content other ↔ other = parts) ∧
    (∀ frame : Frame, frame.content.toByteArray.IsValidUTF8 → Utf8.encode frame.text = frame.content) ∧
    (∀ frame first rest : Frame, first.content.toByteArray.IsValidUTF8 → frame.content = first.content ++ rest.content →
      frame.text = first.text ++ rest.text) ∧
    (∀ frame again : Frame, again.content = Utf8.encode frame.text → again.text = frame.text) := by
  refine ⟨fun data => ⟨?_, ?_, ?_⟩, fun frame hvalid => ?_, fun frame first rest hvalid hcontent => ?_,
    fun frame again hcontent => ?_⟩
  · have hunlimited : ({} : Writer).Unlimited := ⟨rfl, by decide⟩
    rw [written_print_unlimited _ hunlimited, rendering_eq, printedText, Utf8.encode_append, Utf8.encode_append]
    cases (decode data).success <;> rfl
  · exact Utf8.isValidUTF8_iff.2 ⟨_, rfl⟩
  · exact ⟨Utf8.parts (decode data).content, Utf8.encode_lossy _, fun other => Utf8.decomposition_iff⟩
  · exact Utf8.encode_lossy_of_isValidUTF8 hvalid
  · rw [text, hcontent]
    exact Utf8.lossy_append_of_isValidUTF8 hvalid rest.content
  · rw [text, hcontent]
    exact Utf8.lossy_encode frame.text

/-- A content of `é`, the beginning of a character of three bytes, and `A`. -/
def brokenOff : Frame :=
  ⟨true, 5, [0xC3, 0xA9, 0xE2, 0x82, 0x41]⟩

/-- Neither `é` nor `A` is lost. -/
theorem text_lossless_brokenOff :
    let accent : Frame := ⟨true, 2, [0xC3, 0xA9]⟩
    let broken : Frame := ⟨true, 3, [0xE2, 0x82, 0x41]⟩
    let again : Frame := ⟨true, 6, [0xC3, 0xA9, 0xEF, 0xBF, 0xBD, 0x41]⟩
    accent.content.toByteArray.IsValidUTF8 ∧ Utf8.encode accent.text = [0xC3, 0xA9] ∧
      brokenOff.text = accent.text ++ broken.text ∧ broken.text = ['\uFFFD', 'A'] ∧ again.text = brokenOff.text := by
  intro accent broken again
  obtain ⟨-, hwhole, hbehind, hagain⟩ := text_lossless
  have haccent : accent.content.toByteArray.IsValidUTF8 := Utf8.isValidUTF8_iff.2 ⟨['é'], by decide⟩
  have hshown : again.content = Utf8.encode brokenOff.text := by decide
  exact ⟨haccent, hwhole accent haccent, hbehind brokenOff accent broken haccent rfl, by decide, hagain brokenOff again hshown⟩

end ConsoleKit.Frame
