import ConsoleKit.Proofs.Exchange.Scheduling

/-!
# The outcome of an exchange

Whether a command goes out is a race: the bytes that the writes accept have to add up to its length before a write
fails. Whichever comes first settles the writing, and no step behind it is looked at. The reply is settled by the
first read that does not wait.

`sendAll_cons` says once what a write does to the bytes that are left: it ends the writing, in a way that has
nothing to do with the steps behind it, or it leaves the rest to them.
-/

namespace ConsoleKit

/-- The text of the failure with which a write ends an exchange. -/
def WriteStep.failure? : WriteStep → Option String
  | .accept count => if count = 0 then some Exchange.nothingTaken else none
  | .fail text interrupted => if interrupted then none else some text
  | .pending => none

/-- The number of bytes that a write accepts. -/
def WriteStep.count : WriteStep → Nat
  | .accept count => count
  | _ => 0

/-- What an exchange makes of the read that is not a wait, if there is one. -/
def ReadStep.reply : Option ReadStep → Except Error Frame
  | some (.deliver bytes) => .ok (Frame.decode (bytes.take Frame.bufferSize))
  | some (.fail text _) => .error ⟨.connection, "recv failed: " ++ text⟩
  | _ => .ok (Frame.decode [])

namespace Exchange

/-- The number of bytes accepted before the first write that fails. -/
def acceptedBefore (steps : List WriteStep) : Nat :=
  (steps.takeWhile (·.failure?.isNone)).foldr (fun step total => step.count + total) 0

/-- The failure to write so many bytes: that of the first write that fails, unless they were all accepted before.
A stream whose script is used up accepts everything. -/
def sendFailure? (length : Nat) (steps : List WriteStep) : Option String :=
  if length ≤ acceptedBefore steps then none else steps.findSome? WriteStep.failure?

/-- The steps say whether so many bytes are accepted: they are, or a write fails. -/
def Settled (length : Nat) (steps : List WriteStep) : Prop :=
  length ≤ acceptedBefore steps ∨ ∃ step ∈ steps, step.failure?.isSome

/-- The outcome of an exchange of a command of so many bytes, read off the script. -/
def outcome (length : Nat) (writes : List WriteStep) (reads : List ReadStep) : Except Error Frame :=
  match sendFailure? length writes with
  | some text => .error ⟨.connection, "send failed: " ++ text⟩
  | none => ReadStep.reply (reads.find? (!·.isWait))

/-- What went before some sending, put in front of it. -/
def Sending.after (taken : Bytes) (calls : List StreamCall) (later : Sending) : Sending :=
  ⟨later.failure, taken ++ later.taken, calls ++ later.calls⟩

variable {left : Bytes} {step : WriteStep} {steps : List WriteStep} {length : Nat}

/-! ## The race, step by step -/

theorem acceptedBefore_cons_of_none (h : step.failure? = none) :
    acceptedBefore (step :: steps) = step.count + acceptedBefore steps := by
  simp [acceptedBefore, h]

theorem acceptedBefore_cons_of_some {text : String} (h : step.failure? = some text) :
    acceptedBefore (step :: steps) = 0 := by
  simp [acceptedBefore, h]

@[simp] theorem sendFailure?_zero (steps : List WriteStep) : sendFailure? 0 steps = none :=
  if_pos (Nat.zero_le _)

@[simp] theorem sendFailure?_nil (length : Nat) : sendFailure? length [] = none :=
  ite_self _

theorem sendFailure?_cons_of_none (h : step.failure? = none) :
    sendFailure? length (step :: steps) = sendFailure? (length - step.count) steps := by
  have hroom : length ≤ step.count + acceptedBefore steps ↔ length - step.count ≤ acceptedBefore steps := by omega
  rw [sendFailure?, sendFailure?, acceptedBefore_cons_of_none h, List.findSome?_cons, h]
  simp only [hroom]

theorem sendFailure?_cons_of_some {text : String} (hpos : 0 < length) (h : step.failure? = some text) :
    sendFailure? length (step :: steps) = some text := by
  rw [sendFailure?, acceptedBefore_cons_of_some h, if_neg (by omega), List.findSome?_cons, h]

theorem Settled.of_cons (hsettled : Settled length (step :: steps)) (h : step.failure? = none) :
    Settled (length - step.count) steps := by
  rcases hsettled with haccepted | ⟨found, hfound, hfails⟩
  · rw [acceptedBefore_cons_of_none h] at haccepted
    left
    omega
  · right
    rcases List.mem_cons.1 hfound with rfl | hmem
    · rw [h] at hfails
      cases hfails
    · exact ⟨found, hmem, hfails⟩

theorem not_settled_nil (hpos : 0 < length) : ¬Settled length [] := by
  rintro (haccepted | ⟨found, hfound, -⟩)
  · simp only [acceptedBefore, List.takeWhile_nil, List.foldr_nil] at haccepted
    omega
  · cases hfound

/-! ## Writing -/

/-- A write fails, and is then the last one, or takes its bytes and leaves the rest to the steps behind it. -/
theorem sendAll_cons (hne : left ≠ []) (step : WriteStep) :
    (∃ text calls, step.failure? = some text ∧ ∀ steps, sendAll left (step :: steps) = ⟨some text, [], calls⟩) ∨
    (step.failure? = none ∧ ∃ taken calls, ∀ steps,
      sendAll left (step :: steps) = (sendAll (left.drop step.count) steps).after taken calls) := by
  cases step with
  | pending => exact .inr ⟨rfl, [], [], sendAll_wait left⟩
  | fail text interrupted =>
    cases interrupted with
    | true => exact .inr ⟨rfl, [], [.write left none], fun steps => sendAll_interrupted hne text⟩
    | false => exact .inl ⟨text, _, rfl, fun steps => sendAll_failed hne text⟩
  | accept count =>
    by_cases hzero : count = 0
    · subst hzero
      exact .inl ⟨nothingTaken, _, rfl, fun steps => sendAll_refused hne rfl⟩
    · have htaken : ¬(left.take count).isEmpty := by
        rw [List.isEmpty_iff, List.take_eq_nil_iff]
        exact not_or.2 ⟨hzero, hne⟩
      exact .inr ⟨if_neg hzero, _, [_], fun steps => sendAll_accepted hne htaken⟩

/-- Writing fails exactly as the race comes out. -/
theorem failure_sendAll (left : Bytes) (steps : List WriteStep) :
    (sendAll left steps).failure = sendFailure? left.length steps := by
  induction steps generalizing left with
  | nil => cases left <;> simp [sendAll]
  | cons step steps ih =>
    by_cases hne : left = []
    · simp [hne]
    have hpos : 0 < left.length := List.length_pos_iff.2 hne
    obtain ⟨text, calls, hfails, hlast⟩ | ⟨hgoes, taken, calls, hlater⟩ := sendAll_cons hne step
    · rw [hlast, sendFailure?_cons_of_some hpos hfails]
    · rw [hlater, sendFailure?_cons_of_none hgoes, ← List.length_drop]
      exact ih (left.drop step.count)

/-- Waits and interruptions have no part in the race. -/
theorem sendFailure?_withoutInterruptions (left : Bytes) (script : Script) :
    sendFailure? left.length script.withoutWaits.withoutInterruptions.writes =
      sendFailure? left.length script.writes := by
  rw [← failure_sendAll, ← failure_sendAll]
  simp only [Script.withoutInterruptions, Script.withoutWaits, sendAll_withoutInterruptions, sendAll_withoutWaits]

/-- Nothing is looked at behind the steps that settle the writing. -/
theorem sendAll_append {front : List WriteStep} (hsettled : Settled left.length front) (later : List WriteStep) :
    sendAll left (front ++ later) = sendAll left front := by
  induction front generalizing left with
  | nil =>
    by_cases hne : left = []
    · simp [hne]
    · exact absurd hsettled (not_settled_nil (List.length_pos_iff.2 hne))
  | cons step front ih =>
    by_cases hne : left = []
    · simp [hne]
    rw [List.cons_append]
    obtain ⟨text, calls, -, hlast⟩ | ⟨hgoes, taken, calls, hlater⟩ := sendAll_cons hne step
    · rw [hlast, hlast]
    · have hrest : Settled (left.drop step.count).length front := by
        rw [List.length_drop]
        exact hsettled.of_cons hgoes
      rw [hlater, hlater, ih hrest]

/-! ## Reading -/

theorem replyOf_eq (steps : List ReadStep) :
    (replyOf steps).mapError Failure.toError = ReadStep.reply (steps.find? (!·.isWait)) := by
  induction steps with
  | nil => rfl
  | cons step steps ih =>
    cases step with
    | pending => exact ih
    | fail text interrupted => rfl
    | deliver bytes => rfl

/-- One step that is not a wait settles the reading. -/
theorem receive_append {front : List ReadStep} (hsettled : ∃ step ∈ front, !step.isWait) (later : List ReadStep) :
    receive (front ++ later) = receive front := by
  induction front with
  | nil =>
    obtain ⟨step, hmem, -⟩ := hsettled
    cases hmem
  | cons first front ih =>
    cases first with
    | pending =>
      apply ih
      obtain ⟨step, hmem, hready⟩ := hsettled
      rcases List.mem_cons.1 hmem with rfl | hmem
      · cases hready
      · exact ⟨step, hmem, hready⟩
    | fail text interrupted => rfl
    | deliver bytes => rfl

/-! ## The exchange -/

theorem result_run (command : String) (script : Script) :
    (run command script).result.mapError Failure.toError =
      outcome (Text.Utf8.encodeString command).length script.writes script.reads := by
  rw [outcome, ← failure_sendAll, ← replyOf_eq]
  cases h : (sendAll (Text.Utf8.encodeString command) script.writes).failure with
  | some text =>
    simp only [run, h]
    rfl
  | none =>
    simp only [run, h]
    rfl

/-- Nothing is read where the writing fails. -/
theorem run_of_failure {command : String} {script : Script} {text : String}
    (h : sendFailure? (Text.Utf8.encodeString command).length script.writes = some text) (reads : List ReadStep) :
    run command { script with reads := reads } = run command script := by
  rw [← failure_sendAll] at h
  simp only [run, h]

/-- An empty command is written without a write: no step of the script is used, and the one call is the read. -/
theorem run_empty (script : Script) :
    run "" script = ⟨replyOf script.reads, [], [(receive script.reads).call]⟩ := by
  have hnothing : Text.Utf8.encodeString "" = [] := rfl
  simp only [run, hnothing, sendAll_nil, List.nil_append]
  rfl

/-- **The outcome of an exchange.** It is read off the writes that are neither waits nor interrupted, and off the
first read that is not a wait. Nothing in the transcript depends on steps behind those that settle the writing and
the reading, nor on the reads at all where the writing fails. An empty command makes no use of the writes. -/
theorem outcome_run (command : String) (script : Script) :
    (run command script).result.mapError Failure.toError =
      outcome (Text.Utf8.encodeString command).length script.withoutWaits.withoutInterruptions.writes script.reads ∧
    (∀ later, Settled (Text.Utf8.encodeString command).length script.writes →
      run command { script with writes := script.writes ++ later } = run command script) ∧
    (∀ later, (∃ step ∈ script.reads, !step.isWait) →
      run command { script with reads := script.reads ++ later } = run command script) ∧
    (∀ text reads, sendFailure? (Text.Utf8.encodeString command).length script.writes = some text →
      run command { script with reads := reads } = run command script) ∧
    (∀ writes, run "" { script with writes := writes } = run "" script ∧
      ∃ delivered, (run "" script).calls = [.read Frame.bufferSize delivered]) := by
  refine ⟨?_, fun later hsettled => ?_, fun later hsettled => ?_, fun text reads h => run_of_failure h reads,
    fun writes => ⟨?_, ?_⟩⟩
  · rw [result_run, outcome, outcome, sendFailure?_withoutInterruptions]
  · simp only [run, sendAll_append hsettled]
  · simp only [run, receive_append hsettled]
  · rw [run_empty, run_empty]
  · obtain ⟨delivered, hcall⟩ := receive_call script.reads
    exact ⟨delivered, by rw [run_empty, hcall]⟩

/-- A stream that takes four bytes in two writes, then fails. -/
def takesFour : Script := ⟨[.pending, .accept 3, .fail "interrupted" true, .accept 1, .fail "broken pipe" false], lateReply⟩

/-- Four bytes go out before the failure, five do not. A read that is interrupted is not made again. -/
theorem outcome_run_takesFour :
    (run "quit" takesFour).result.mapError Failure.toError = .ok (Frame.decode [1, 0, 0, 2, 111, 107]) ∧
    (run "abort" takesFour).result.mapError Failure.toError = .error ⟨.connection, "send failed: broken pipe"⟩ ∧
    (run "quit" { takesFour with reads := [.fail "interrupted" true] }).result.mapError Failure.toError =
      .error ⟨.connection, "recv failed: interrupted"⟩ ∧
    run "quit" { takesFour with writes := takesFour.writes ++ [.accept 0] } = run "quit" takesFour ∧
    run "quit" { takesFour with reads := takesFour.reads ++ [.fail "reset" false] } = run "quit" takesFour ∧
    run "abort" { takesFour with reads := [.fail "interrupted" true] } = run "abort" takesFour := by
  refine ⟨(outcome_run "quit" takesFour).1, (outcome_run "abort" takesFour).1, (outcome_run "quit" _).1,
    (outcome_run "quit" takesFour).2.1 _ (.inl (by decide)), (outcome_run "quit" takesFour).2.2.1 _ ?_,
    (outcome_run "abort" takesFour).2.2.2.1 "broken pipe" _ (by decide)⟩
  exact ⟨.deliver [1, 0, 0, 2, 111, 107], by decide, rfl⟩

end Exchange

end ConsoleKit
