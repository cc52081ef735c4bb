import ConsoleKit.Proofs.Exchange.Outcome
import ConsoleKit.Proofs.Frame.Strictness
import ConsoleKit.Proofs.Text.Cut

/-!
# The reply of an exchange

A reply is what the one read delivers, and the read has room for 4096 bytes. So there is room for a header and 4092
bytes of content, and what a console has to say beyond that is lost. The loss can be seen: the header still announces
the whole length (`run_capped`), and of a text that is cut inside of a character the end is read as U+FFFD
(`run_text`).
-/

namespace ConsoleKit.Exchange

/-! ## A reply -/

/-- Where a read succeeds, the call says how much it delivered. -/
theorem receive_of_ok {steps : List ReadStep} {data : Bytes} (h : (receive steps).outcome = .ok data) :
    receive steps = ⟨.ok data, .read Frame.bufferSize (some data.length)⟩ := by
  fun_induction receive steps with
  | case1 => cases h; rfl
  | case2 steps ih => exact ih h
  | case3 text interrupted steps => cases h
  | case4 bytes steps delivered =>
    obtain rfl : delivered = data := Except.ok.inj h
    rfl

/-- Once the whole command was taken the result is up to the reads. -/
theorem result_of_written {command : String} {script : Script}
    (h : (run command script).written = Text.Utf8.encodeString command) :
    (run command script).result = replyOf script.reads := by
  have hsent : ¬∃ text, (run command script).result = .error (.send text) :=
    fun hsend => (run_send_iff command script).1 hsend h
  cases hfailure : (sendAll (Text.Utf8.encodeString command) script.writes).failure with
  | some text =>
    refine absurd ⟨text, ?_⟩ hsent
    simp only [run, hfailure]
  | none =>
    simp only [run, hfailure]
    rfl

/-- A reply is what the one read delivered, after the console took the whole command. -/
theorem run_of_ok {command : String} {script : Script} {frame : Frame}
    (h : (run command script).result = .ok frame) :
    (run command script).written = Text.Utf8.encodeString command ∧
      ∃ data, (receive script.reads).outcome = .ok data ∧ frame = Frame.decode data := by
  have hwritten : (run command script).written = Text.Utf8.encodeString command := by
    by_contra hpart
    obtain ⟨text, hsend⟩ := (run_send_iff command script).2 hpart
    rw [h] at hsend
    cases hsend
  refine ⟨hwritten, ?_⟩
  rw [result_of_written hwritten, replyOf] at h
  cases houtcome : (receive script.reads).outcome with
  | error text =>
    rw [houtcome] at h
    cases h
  | ok data =>
    rw [houtcome] at h
    exact ⟨data, rfl, (Except.ok.inj h).symm⟩

/-- What the first read that does not wait offers is decoded as far as there is room for it. -/
theorem replyOf_of_offered {steps : List ReadStep} {bytes : Bytes}
    (h : steps.find? (!·.isWait) = some (.deliver bytes)) :
    replyOf steps = .ok (Frame.decode (bytes.take Frame.bufferSize)) := by
  have hreply := replyOf_eq steps
  rw [h, ReadStep.reply] at hreply
  cases hresult : replyOf steps with
  | error failure =>
    rw [hresult] at hreply
    cases hreply
  | ok frame =>
    rw [hresult] at hreply
    exact congrArg Except.ok (Except.ok.inj hreply)

/-! ## The room for the content -/

/-- The room in the buffer is 4 bytes for the header, and the rest for the content. -/
theorem take_compose (flag : UInt8) (length : Nat) (content : Bytes) :
    (Frame.compose flag length content).take Frame.bufferSize = Frame.compose flag length (content.take 4092) := rfl

/-- What a read makes of a reply is decoded from the beginning of some bytes, which may be none at all. -/
theorem reply_ok_inv {first : Option ReadStep} {frame : Frame} (h : ReadStep.reply first = .ok frame) :
    ∃ bytes : Bytes, frame = Frame.decode (bytes.take Frame.bufferSize) := by
  cases first with
  | none => exact ⟨[], (Except.ok.inj h).symm⟩
  | some step =>
    cases step with
    | deliver bytes => exact ⟨bytes, (Except.ok.inj h).symm⟩
    | fail text interrupted => cases h
    | pending => exact ⟨[], (Except.ok.inj h).symm⟩

theorem length_content_le {command : String} {script : Script} {frame : Frame}
    (h : (run command script).result = .ok frame) : frame.content.length ≤ 4092 := by
  have hreply : ReadStep.reply (script.reads.find? (!·.isWait)) = .ok frame := by
    rw [← replyOf_eq, ← result_of_written (run_of_ok h).1, h]
    rfl
  obtain ⟨bytes, rfl⟩ := reply_ok_inv hreply
  simp only [Frame.decode, Frame.bufferSize, Frame.headerSize, List.length_drop, List.length_take]
  omega

/-- **The cap on a reply shows in the strict check.** A stream that takes the command and offers a whole reply gets
it decoded with the length that it announces and the first 4092 bytes of its content, and the strict check accepts the
frame exactly if that is all of the content. No exchange at all has a reply with more content. -/
theorem run_capped (command : String) (script : Script) :
    (∀ flag content, content.length < 2 ^ 24 → script.Willing →
      script.reads.find? (!·.isWait) = some (.deliver (Frame.compose flag content.length content)) →
      ∃ frame, (run command script).result = .ok frame ∧
        frame.declaredLength.toNat = content.length ∧ frame.content = content.take 4092 ∧
        (frame.checkLength = .ok () ↔ content.length ≤ 4092)) ∧
    (∀ frame, (run command script).result = .ok frame → frame.content.length ≤ 4092) := by
  refine ⟨fun flag content hlength hwilling hread => ?_, fun frame => length_content_le⟩
  have hresult := (run_of_willing command hwilling).1
  rw [replyOf_of_offered hread, take_compose] at hresult
  refine ⟨_, hresult, Frame.toNat_declaredLength_compose flag _ hlength, rfl, ?_⟩
  rw [Frame.checkLength_compose_iff flag _ hlength, List.length_take]
  omega

/-- A stream that is slow to take the command, and then offers a reply. -/
def offering (reply : Bytes) : Script := ⟨[.accept 1, .pending, .accept 2], [.pending, .deliver reply]⟩

theorem willing_offering (reply : Bytes) : (offering reply).Willing := by
  constructor <;> simp [offering]

/-- A content of 4092 bytes is accepted. Of one byte more the last is lost, and the strict check can tell. -/
theorem run_capped_full :
    (∃ frame, (run "quit" (offering (Frame.compose 1 4092 (List.replicate 4092 0x61)))).result = .ok frame ∧
      frame.content.length ≤ 4092 ∧ frame.checkLength = .ok ()) ∧
    (∃ frame, (run "quit" (offering (Frame.compose 1 4093 (List.replicate 4093 0x61)))).result = .ok frame ∧
      frame.declaredLength.toNat = 4093 ∧ frame.content.length ≤ 4092 ∧ frame.checkLength ≠ .ok ()) := by
  have hlength (count : Nat) : (List.replicate count (0x61 : UInt8)).length = count := List.length_replicate
  constructor
  · obtain ⟨hwhole, hcap⟩ := run_capped "quit" (offering (Frame.compose 1 4092 (List.replicate 4092 0x61)))
    obtain ⟨frame, hresult, -, -, haccepted⟩ := hwhole 1 (List.replicate 4092 0x61) (by rw [hlength]; decide)
      (willing_offering _) (by rw [hlength]; rfl)
    exact ⟨frame, hresult, hcap frame hresult, haccepted.2 (by rw [hlength])⟩
  · obtain ⟨hwhole, hcap⟩ := run_capped "quit" (offering (Frame.compose 1 4093 (List.replicate 4093 0x61)))
    obtain ⟨frame, hresult, hdeclared, -, haccepted⟩ := hwhole 1 (List.replicate 4093 0x61) (by rw [hlength]; decide)
      (willing_offering _) (by rw [hlength]; rfl)
    refine ⟨frame, hresult, hdeclared.trans (hlength 4093), hcap frame hresult, fun hok => ?_⟩
    have hfits := haccepted.1 hok
    rw [hlength] at hfits
    omega

/-! ## Text -/

/-- **What is read of a text as a reply.** It is the longest beginning of whole characters for which 4092 bytes have
room, with one U+FFFD behind it if the room ends inside of a character, and with nothing behind it otherwise. A text
that has room is read as it is. The read is made once the whole command was taken. -/
theorem run_text (command : String) (script : Script) (text : List Char) (flag high middle low : UInt8)
    (hwritten : (run command script).written = Text.Utf8.encodeString command)
    (hread : script.reads.find? (!·.isWait) =
      some (.deliver (flag :: high :: middle :: low :: Text.Utf8.encode text))) :
    ∃ frame kept, (run command script).result = .ok frame ∧ Text.Utf8.LongestFitting 4092 text kept ∧
      (Text.Utf8.FallsInside 4092 text → frame.text = kept ++ [Text.Utf8.replacement]) ∧
      (¬Text.Utf8.FallsInside 4092 text → frame.text = kept) ∧
      ((Text.Utf8.encode text).length ≤ 4092 → frame.text = text) := by
  have hresult := result_of_written hwritten
  rw [replyOf_of_offered hread] at hresult
  obtain ⟨kept, hkept, hinside, houtside⟩ := Text.Utf8.lossy_take_encode 4092 text
  exact ⟨_, kept, hresult, hkept, hinside, houtside, Text.Utf8.lossy_take_of_fits⟩

/-- A text of 4094 bytes with a character of two bytes around byte 4092. -/
def overfull : List Char := List.replicate 4091 'a' ++ 'é' :: ['b']

/-- Behind 4091 bytes there is room for one of the two bytes of `é`. -/
theorem run_text_overfull :
    ∃ frame, (run "quit" (offering (1 :: 0 :: 0 :: 0 :: Text.Utf8.encode overfull))).result = .ok frame ∧
      frame.text = List.replicate 4091 'a' ++ ['\uFFFD'] := by
  obtain ⟨-, hwritten⟩ := run_of_willing "quit" (willing_offering (1 :: 0 :: 0 :: 0 :: Text.Utf8.encode overfull))
  obtain ⟨frame, kept, hresult, hkept, hinside, -, -⟩ := run_text "quit" _ overfull 1 0 0 0 hwritten rfl
  have hbefore : (Text.Utf8.encode (List.replicate 4091 'a')).length = 4091 := by
    rw [Text.Utf8.encode, List.length_flatMap, List.map_replicate, List.sum_replicate_nat]
    rfl
  have hpast : (Text.Utf8.encode (List.replicate 4091 'a' ++ ['é'])).length = 4093 := by
    rw [Text.Utf8.encode_append, List.length_append, hbefore]
    rfl
  have hlongest : Text.Utf8.LongestFitting 4092 overfull (List.replicate 4091 'a') :=
    Text.Utf8.longestFitting_before rfl (by omega) (by omega)
  obtain rfl : kept = List.replicate 4091 'a' := hkept.unique hlongest
  exact ⟨frame, hresult, hinside ⟨_, _, _, rfl, by omega, by omega⟩⟩

end ConsoleKit.Exchange
