import ConsoleKit.Proofs.Exchange.Trace

/-!
# When a stream is ready

An exchange does not depend on when its stream is ready, and hardly on how the stream divides the command. Steps
at which the caller waits leave no trace at all (`run_withoutWaits`). An interrupted write leaves a call and nothing
else (`run_withoutInterruptions`). A stream that takes something at every write takes the whole command, however it
is cut (`run_of_willing`).

The two deletions are treated alike: a step that is deleted from a script leaves the bytes that are left as they
are, so that the runs over both scripts meet again right behind it.
-/

namespace ConsoleKit

/-- The caller waits. -/
def WriteStep.isWait : WriteStep → Bool
  | .pending => true
  | _ => false

/-- The write fails, but was only interrupted. -/
def WriteStep.isInterruption : WriteStep → Bool
  | .fail _ interrupted => interrupted
  | _ => false

/-- The caller waits. -/
def ReadStep.isWait : ReadStep → Bool
  | .pending => true
  | _ => false

namespace Script

/-- The script of a stream that is ready at once, whenever it is called. -/
def withoutWaits (script : Script) : Script :=
  ⟨script.writes.filter (!·.isWait), script.reads.filter (!·.isWait)⟩

/-- The script of a stream whose writes are never interrupted. -/
def withoutInterruptions (script : Script) : Script :=
  { script with writes := script.writes.filter (!·.isInterruption) }

/-- A stream that takes at least one byte at every write, unless the write is only interrupted. -/
structure Willing (script : Script) : Prop where
  /-- A write that is accepted takes something. -/
  accepts : ∀ count, .accept count ∈ script.writes → 1 ≤ count
  /-- A write that fails was only interrupted. -/
  fails : ∀ text interrupted, .fail text interrupted ∈ script.writes → interrupted = true

end Script

namespace Exchange

/-- The calls less the writes that were interrupted. These are the failed writes that another call follows: every
other failure is the end of the exchange, and an interrupted write is made again. -/
def lessInterrupted : List StreamCall → List StreamCall
  | .write _ none :: call :: calls => lessInterrupted (call :: calls)
  | call :: calls => call :: lessInterrupted calls
  | [] => []

variable {left : Bytes} {steps : List WriteStep}

/-! ## Writing, step by step -/

@[simp]
theorem sendAll_nil (steps : List WriteStep) : sendAll [] steps = ⟨none, [], []⟩ := by
  cases steps <;> rfl

theorem sendAll_wait (left : Bytes) (steps : List WriteStep) : sendAll left (.pending :: steps) = sendAll left steps := by
  cases left with
  | nil => simp
  | cons byte left => rfl

theorem sendAll_interrupted (hne : left ≠ []) (text : String) :
    sendAll left (.fail text true :: steps) =
      { sendAll left steps with calls := .write left none :: (sendAll left steps).calls } := by
  cases left with
  | nil => exact absurd rfl hne
  | cons byte left => rfl

theorem sendAll_failed (hne : left ≠ []) (text : String) :
    sendAll left (.fail text false :: steps) = ⟨some text, [], [.write left none]⟩ := by
  cases left with
  | nil => exact absurd rfl hne
  | cons byte left => rfl

theorem sendAll_refused (hne : left ≠ []) {count : Nat} (hcount : (left.take count).isEmpty) :
    sendAll left (.accept count :: steps) = ⟨some nothingTaken, [], [.write left (some 0)]⟩ := by
  cases left with
  | nil => exact absurd rfl hne
  | cons byte left => exact if_pos hcount

theorem sendAll_accepted (hne : left ≠ []) {count : Nat} (hcount : ¬(left.take count).isEmpty) :
    sendAll left (.accept count :: steps) =
      { sendAll (left.drop count) steps with
        taken := left.take count ++ (sendAll (left.drop count) steps).taken
        calls := .write left (some (left.take count).length) :: (sendAll (left.drop count) steps).calls } := by
  cases left with
  | nil => exact absurd rfl hne
  | cons byte left => exact if_neg hcount

/-- Whatever is left is offered at least once. -/
theorem sendAll_calls_ne_nil (hne : left ≠ []) : (sendAll left steps).calls ≠ [] := by
  fun_induction sendAll left steps with
  | case1 steps => exact absurd rfl hne
  | case3 left steps _ ih => exact ih hne
  | case2 => simp
  | case4 => simp
  | case5 => simp
  | case6 => simp
  | case7 => simp

/-! ## Waiting -/

theorem sendAll_withoutWaits (left : Bytes) (steps : List WriteStep) :
    sendAll left (steps.filter (!·.isWait)) = sendAll left steps := by
  induction steps generalizing left with
  | nil => rfl
  | cons step steps ih =>
    by_cases hne : left = []
    · rw [hne, sendAll_nil, sendAll_nil]
    cases step with
    | pending =>
      rw [sendAll_wait]
      exact ih left
    | fail text interrupted =>
      rw [List.filter_cons_of_pos rfl]
      cases interrupted with
      | false => rw [sendAll_failed hne, sendAll_failed hne]
      | true => rw [sendAll_interrupted hne, sendAll_interrupted hne, ih]
    | accept count =>
      rw [List.filter_cons_of_pos rfl]
      by_cases hcount : (left.take count).isEmpty
      · rw [sendAll_refused hne hcount, sendAll_refused hne hcount]
      · rw [sendAll_accepted hne hcount, sendAll_accepted hne hcount, ih]

theorem receive_withoutWaits (steps : List ReadStep) : receive (steps.filter (!·.isWait)) = receive steps := by
  induction steps with
  | nil => rfl
  | cons step steps ih =>
    cases step with
    | pending => exact ih
    | fail text interrupted => rfl
    | deliver bytes => rfl

/-- Waiting leaves no trace: neither in the outcome nor in the bytes that are written nor in the calls. -/
theorem run_withoutWaits (command : String) (script : Script) : run command script.withoutWaits = run command script := by
  simp only [run, Script.withoutWaits, sendAll_withoutWaits, receive_withoutWaits]

/-! ## Interruptions -/

theorem lessInterrupted_failed (offered : Bytes) {calls : List StreamCall} (hne : calls ≠ []) :
    lessInterrupted (.write offered none :: calls) = lessInterrupted calls := by
  cases calls with
  | nil => exact absurd rfl hne
  | cons call calls => rfl

@[simp]
theorem lessInterrupted_taken (offered : Bytes) (count : Nat) (calls : List StreamCall) :
    lessInterrupted (.write offered (some count) :: calls) = .write offered (some count) :: lessInterrupted calls := by
  cases calls <;> rfl

/-- What an interrupted write adds to a script, it adds to the calls. -/
theorem sendAll_withoutInterruptions (left : Bytes) (steps : List WriteStep) :
    sendAll left (steps.filter (!·.isInterruption)) =
      { sendAll left steps with calls := lessInterrupted (sendAll left steps).calls } := by
  induction steps generalizing left with
  | nil => cases left <;> rfl
  | cons step steps ih =>
    by_cases hne : left = []
    · rw [hne, sendAll_nil, sendAll_nil]
      rfl
    cases step with
    | pending => rw [List.filter_cons_of_pos rfl, sendAll_wait, sendAll_wait, ih]
    | fail text interrupted =>
      cases interrupted with
      | false =>
        rw [List.filter_cons_of_pos rfl, sendAll_failed hne, sendAll_failed hne]
        rfl
      | true =>
        -- The next call offers the same bytes, so that the interrupted one is not the last.
        rw [List.filter_cons_of_neg (by simp [WriteStep.isInterruption]), sendAll_interrupted hne, ih,
          lessInterrupted_failed left (sendAll_calls_ne_nil hne)]
    | accept count =>
      rw [List.filter_cons_of_pos rfl]
      by_cases hcount : (left.take count).isEmpty
      · rw [sendAll_refused hne hcount, sendAll_refused hne hcount]
        rfl
      · rw [sendAll_accepted hne hcount, sendAll_accepted hne hcount, ih, lessInterrupted_taken]

/-- If all is taken, no failed write is the last call, and a read after the writes changes nothing about them. -/
theorem lessInterrupted_concat_read (hnone : (sendAll left steps).failure = none) (room : Nat) (delivered : Option Nat) :
    lessInterrupted ((sendAll left steps).calls ++ [.read room delivered]) =
      lessInterrupted (sendAll left steps).calls ++ [.read room delivered] := by
  induction steps generalizing left with
  | nil => cases left <;> rfl
  | cons step steps ih =>
    by_cases hne : left = []
    · rw [hne, sendAll_nil]
      rfl
    cases step with
    | pending =>
      rw [sendAll_wait] at hnone ⊢
      exact ih hnone
    | fail text interrupted =>
      cases interrupted with
      | false =>
        rw [sendAll_failed hne] at hnone
        cases hnone
      | true =>
        rw [sendAll_interrupted hne] at hnone ⊢
        rw [List.cons_append, lessInterrupted_failed left (by simp), lessInterrupted_failed left (sendAll_calls_ne_nil hne)]
        exact ih hnone
    | accept count =>
      by_cases hcount : (left.take count).isEmpty
      · rw [sendAll_refused hne hcount] at hnone
        cases hnone
      · rw [sendAll_accepted hne hcount] at hnone ⊢
        rw [List.cons_append, lessInterrupted_taken, lessInterrupted_taken, ih hnone, List.cons_append]

/-- An interrupted write leaves its call, and nothing else. -/
theorem run_withoutInterruptions (command : String) (script : Script) :
    run command script.withoutInterruptions =
      { run command script with calls := lessInterrupted (run command script).calls } := by
  simp only [run, Script.withoutInterruptions, sendAll_withoutInterruptions]
  cases hfailure : (sendAll (Text.Utf8.encodeString command) script.writes).failure with
  | some text => rfl
  | none =>
    obtain ⟨delivered, hcall⟩ := receive_call script.reads
    simp only [hcall, lessInterrupted_concat_read hfailure]

/-! ## Cutting the command -/

theorem sendAll_of_willing (left : Bytes) (haccepts : ∀ count, .accept count ∈ steps → 1 ≤ count)
    (hfails : ∀ text interrupted, .fail text interrupted ∈ steps → interrupted = true) :
    (sendAll left steps).failure = none ∧ (sendAll left steps).taken = left := by
  induction steps generalizing left with
  | nil => cases left <;> exact ⟨rfl, rfl⟩
  | cons step steps ih =>
    by_cases hne : left = []
    · rw [hne, sendAll_nil]
      exact ⟨rfl, rfl⟩
    have later (left : Bytes) : (sendAll left steps).failure = none ∧ (sendAll left steps).taken = left :=
      ih left (fun count h => haccepts count (.tail _ h)) (fun text interrupted h => hfails text interrupted (.tail _ h))
    cases step with
    | pending =>
      rw [sendAll_wait]
      exact later left
    | fail text interrupted =>
      obtain rfl : interrupted = true := hfails text interrupted (.head _)
      rw [sendAll_interrupted hne]
      exact later left
    | accept count =>
      have hcount : ¬(left.take count).isEmpty := by
        have hpos : 1 ≤ count := haccepts count (.head _)
        rw [List.isEmpty_iff, List.take_eq_nil_iff]
        rintro (h | h)
        · omega
        · exact hne h
      rw [sendAll_accepted hne hcount]
      refine ⟨(later _).1, ?_⟩
      show left.take count ++ (sendAll (left.drop count) steps).taken = left
      rw [(later _).2, List.take_append_drop]

/-- The outcome of an exchange whose command was taken is what the one read makes of it. -/
def replyOf (steps : List ReadStep) : Except Failure Frame :=
  match (receive steps).outcome with
  | .ok data => .ok (Frame.decode data)
  | .error text => .error (.receive text)

theorem replyOf_withoutWaits (steps : List ReadStep) : replyOf (steps.filter (!·.isWait)) = replyOf steps := by
  rw [replyOf, replyOf, receive_withoutWaits]

/-- A willing stream takes the whole command, and the outcome is then up to its reads. -/
theorem run_of_willing (command : String) {script : Script} (h : script.Willing) :
    (run command script).result = replyOf script.reads ∧
      (run command script).written = Text.Utf8.encodeString command := by
  obtain ⟨hnone, htaken⟩ := sendAll_of_willing (Text.Utf8.encodeString command) h.accepts h.fails
  simp only [run, hnone]
  exact ⟨rfl, htaken⟩

/-! ## Two schedules -/

/-- How a stream is scheduled does not matter to an exchange. Two scripts that differ in waits only give the same
transcript. If the writes differ in interruptions as well, the outcome and the bytes written are the same, and the
calls are too, but for the interrupted writes. And if every write of either stream takes something or is only
interrupted, the outcome and the bytes written do not depend on how the command is cut. -/
theorem run_schedule_independent (command : String) (first second : Script) :
    (first.withoutWaits = second.withoutWaits → run command first = run command second) ∧
    (first.withoutWaits.withoutInterruptions = second.withoutWaits.withoutInterruptions →
      (run command first).result = (run command second).result ∧
      (run command first).written = (run command second).written ∧
      lessInterrupted (run command first).calls = lessInterrupted (run command second).calls) ∧
    (first.Willing → second.Willing → first.withoutWaits.reads = second.withoutWaits.reads →
      (run command first).result = (run command second).result ∧
      (run command first).written = (run command second).written) := by
  refine ⟨fun h => ?_, fun h => ?_, fun hfirst hsecond hreads => ?_⟩
  · rw [← run_withoutWaits command first, h, run_withoutWaits]
  · have heq := congrArg (run command) h
    rw [run_withoutInterruptions, run_withoutInterruptions, run_withoutWaits, run_withoutWaits] at heq
    rw [Transcript.mk.injEq] at heq
    exact heq
  · obtain ⟨hresult, hwritten⟩ := run_of_willing command hfirst
    obtain ⟨hresult', hwritten'⟩ := run_of_willing command hsecond
    refine ⟨?_, hwritten.trans hwritten'.symm⟩
    rw [hresult, hresult', ← replyOf_withoutWaits, ← replyOf_withoutWaits second.reads]
    exact congrArg replyOf hreads

/-- A reply of two bytes behind its status and length, which keeps its reader waiting first. -/
def lateReply : List ReadStep := [.pending, .deliver [1, 0, 0, 2, 111, 107]]

/-- A stream that waits before and between its writes, and is interrupted once. -/
def hesitant : Script := ⟨[.pending, .accept 1, .pending, .fail "interrupted" true, .accept 9], lateReply⟩

/-- The same stream at another time: it waits elsewhere. -/
def delayed : Script := ⟨[.accept 1, .fail "interrupted" true, .pending, .pending, .accept 9, .pending], lateReply⟩

/-- A stream that is not interrupted. -/
def calm : Script := ⟨[.accept 1, .accept 9], lateReply⟩

/-- A stream that takes a byte at a time. -/
def bytewise : Script := ⟨[.accept 1, .accept 1, .accept 1, .accept 1], lateReply⟩

theorem run_schedule_hesitant :
    run "quit" hesitant = run "quit" delayed ∧
    (run "quit" hesitant).result = (run "quit" calm).result ∧
    lessInterrupted (run "quit" hesitant).calls = lessInterrupted (run "quit" calm).calls ∧
    (run "quit" hesitant).written = (run "quit" bytewise).written := by
  have hhesitant : hesitant.Willing := by constructor <;> simp [hesitant]
  have hbytewise : bytewise.Willing := by constructor <;> simp [bytewise]
  have hcalm := (run_schedule_independent "quit" hesitant calm).2.1 (by decide)
  have hcut := (run_schedule_independent "quit" hesitant bytewise).2.2 hhesitant hbytewise rfl
  exact ⟨(run_schedule_independent "quit" hesitant delayed).1 (by decide), hcalm.1, hcalm.2.2, hcut.2⟩

end Exchange

end ConsoleKit
