import ConsoleKit.Proofs.Frame.Collisions
import Mathlib.Data.List.TakeWhile

/-!
# What the strict check tells

The check sees a decoded frame only. A reply that is cut behind its header, or that goes on after its content, has
another number of content bytes than it announces, and is refused. A reply that is cut inside its header has no
content, and announces what the length bytes that are left amount to: it is refused exactly if one of them is not
zero. So a reply that is cut before its first length byte other than zero passes for a reply without content.
-/

namespace ConsoleKit.Frame

/-- The strict check refuses the frame, and the error says which lengths disagree. -/
def Refused (frame : Frame) : Prop :=
  frame.checkLength.mapError LengthMismatch.toError = .error ⟨.protocol,
    s!"declared length {frame.declaredLength.toNat} but received {frame.content.length} content bytes"⟩

/-! ## The check on a frame -/

theorem checkLength_eq_ok_iff (frame : Frame) :
    frame.checkLength = .ok () ↔ frame.declaredLength.toNat = frame.content.length := by
  by_cases h : frame.declaredLength.toNat = frame.content.length <;> simp [checkLength, h]

/-- A frame that is not accepted is refused, and with the error of a broken protocol. -/
theorem refused_iff (frame : Frame) : frame.Refused ↔ frame.checkLength ≠ .ok () := by
  by_cases h : frame.declaredLength.toNat = frame.content.length
  · have hok : frame.checkLength = .ok () := (checkLength_eq_ok_iff frame).2 h
    simp [Refused, hok, Except.mapError]
  · simp [Refused, checkLength, Except.mapError, LengthMismatch.toError, h]

/-! ## Replies with a whole header -/

section

variable {flag : UInt8} {length : Nat} {content cut : Bytes}

theorem checkLength_compose_iff (flag : UInt8) (content : Bytes) (h : length < 2 ^ 24) :
    (decode (compose flag length content)).checkLength = .ok () ↔ length = content.length := by
  rw [checkLength_eq_ok_iff, toNat_declaredLength_compose flag content h]
  rfl

theorem refused_compose_iff (flag : UInt8) (content : Bytes) (h : length < 2 ^ 24) :
    (decode (compose flag length content)).Refused ↔ length ≠ content.length := by
  rw [refused_iff, Ne, checkLength_compose_iff flag content h]

theorem compose_append (flag : UInt8) (length : Nat) (content excess : Bytes) :
    compose flag length content ++ excess = compose flag length (content ++ excess) := by
  simp only [compose, List.cons_append, List.append_assoc]

/-- A cut behind the header is a cut of the content. -/
theorem cut_behind_header (hcut : cut <+: compose flag length content) (hheader : headerSize ≤ cut.length) :
    ∃ kept, cut = compose flag length kept ∧ kept <+: content := by
  obtain ⟨count, hcount⟩ : ∃ count, cut.length = count + headerSize := ⟨_, (Nat.sub_add_cancel hheader).symm⟩
  refine ⟨content.take count, ?_, List.take_prefix count content⟩
  rw [List.prefix_iff_eq_take.1 hcut, hcount]
  rfl

end

/-! ## Replies without a whole header -/

theorem content_decode_of_short {data : Bytes} (hshort : data.length < headerSize) : (decode data).content = [] :=
  List.drop_eq_nil_of_le (Nat.le_of_lt hshort)

theorem positional_eq_zero_iff (bytes : Bytes) : positional bytes = 0 ↔ ∀ byte ∈ bytes, byte = 0 := by
  rw [← positional_nil, positional_eq_iff, significant, significant, List.dropWhile_nil, List.dropWhile_eq_nil_iff]
  simp only [beq_iff_eq]

/-- A reply without a whole header is accepted if it announces nothing, or not at all. -/
theorem checkLength_of_short {data : Bytes} (hshort : data.length < headerSize) :
    (decode data).checkLength = .ok () ↔ ∀ byte ∈ lengthField data, byte = 0 := by
  rw [checkLength_eq_ok_iff, content_decode_of_short hshort, toNat_declaredLength, List.length_nil,
    positional_eq_zero_iff]

/-! ## Truncation and excess -/

/-- A cut by which the check can tell that something is missing: the header is whole, or what is left of it
announces some content. -/
def TellingCut (cut : Bytes) : Prop :=
  headerSize ≤ cut.length ∨ ∃ byte ∈ lengthField cut, byte ≠ 0

instance (cut : Bytes) : Decidable (TellingCut cut) :=
  inferInstanceAs (Decidable (_ ∨ _))

theorem accepted_of_not_telling {cut : Bytes} (h : ¬TellingCut cut) : (decode cut).checkLength = .ok () := by
  obtain ⟨hheader, hzero⟩ := not_or.1 h
  push Not at hzero
  exact (checkLength_of_short (Nat.lt_of_not_le hheader)).2 hzero

theorem refused_of_telling {flag : UInt8} {content cut : Bytes} (h : content.length < 2 ^ 24)
    (hcut : cut <+: compose flag content.length content) (hne : cut ≠ compose flag content.length content)
    (htelling : TellingCut cut) : (decode cut).Refused := by
  by_cases hheader : headerSize ≤ cut.length
  · obtain ⟨kept, rfl, hkept⟩ := cut_behind_header hcut hheader
    rw [refused_compose_iff flag kept h]
    intro hlength
    exact hne (by rw [hkept.eq_of_length hlength.symm])
  · obtain ⟨byte, hmem, hbyte⟩ := htelling.resolve_left hheader
    rw [refused_iff, Ne, checkLength_of_short (Nat.lt_of_not_le hheader)]
    exact fun hzero => hbyte (hzero byte hmem)

/-- What it would be to detect every truncation and every excess of a reply. -/
def Guarded (flag : UInt8) (content : Bytes) : Prop :=
  let reply := compose flag content.length content
  (decode reply).checkLength = .ok () ∧
  (∀ cut, cut <+: reply → cut ≠ reply → (decode cut).Refused) ∧
  (∀ excess, excess ≠ [] → (decode (reply ++ excess)).Refused)

/-- Not every truncation is detected: of the reply `x`, announced as one byte, the first three bytes are accepted. -/
theorem not_guarded : ([0x78] : Bytes).length < 2 ^ 24 ∧ ¬Guarded 1 [0x78] := by
  refine ⟨by decide, fun ⟨_, hcuts, _⟩ => ?_⟩
  have hrefused : (decode [1, 0, 0]).Refused := hcuts [1, 0, 0] (by decide) (by decide)
  exact (refused_iff _).1 hrefused (accepted_of_not_telling (by decide))

/-- **What the strict check detects.** A whole reply is accepted. Its truncation is refused if the header is still
whole or a length byte other than zero is left; any other truncation is accepted. Every excess is refused. -/
theorem checkLength_detects (flag : UInt8) (content : Bytes) (h : content.length < 2 ^ 24) :
    let reply := compose flag content.length content
    (decode reply).checkLength = .ok () ∧
    (∀ cut, cut <+: reply → cut ≠ reply →
      (TellingCut cut → (decode cut).Refused) ∧ (¬TellingCut cut → (decode cut).checkLength = .ok ())) ∧
    (∀ excess, excess ≠ [] → (decode (reply ++ excess)).Refused) := by
  intro reply
  refine ⟨(checkLength_compose_iff flag content h).2 rfl, fun cut hcut hne => ⟨?_, ?_⟩, fun excess hne => ?_⟩
  · exact refused_of_telling h hcut hne
  · exact accepted_of_not_telling
  · rw [compose_append, refused_compose_iff flag _ h, List.length_append]
    have hpos : 0 < excess.length := List.length_pos_iff.2 hne
    omega

/-- Of the reply `hi` the first five bytes are refused and the first three accepted, and a byte behind it is too
much. Of 256 bytes of content three bytes of the header are enough to tell. -/
theorem checkLength_detects_hi :
    (decode [1, 0, 0, 2, 0x68]).Refused ∧ (decode [1, 0, 0]).checkLength = .ok () ∧
    (decode [1, 0, 0, 2, 0x68, 0x69, 0]).Refused ∧ (decode [1, 0, 1]).Refused := by
  obtain ⟨-, hcuts, hexcess⟩ := checkLength_detects 1 [0x68, 0x69] (by decide)
  have hlength : (List.replicate 256 (0 : UInt8)).length = 256 := List.length_replicate
  obtain ⟨-, hlong, -⟩ := checkLength_detects 1 (List.replicate 256 0) (by rw [hlength]; decide)
  rw [hlength] at hlong
  have hheader : [1, 0, 1] <+: compose 1 256 (List.replicate 256 0) := ⟨0 :: List.replicate 256 0, rfl⟩
  exact ⟨(hcuts _ (by decide) (by decide)).1 (by decide), (hcuts _ (by decide) (by decide)).2 (by decide),
    hexcess [0] (by decide), (hlong _ hheader (fun h => nomatch h)).1 (by decide)⟩

end ConsoleKit.Frame
