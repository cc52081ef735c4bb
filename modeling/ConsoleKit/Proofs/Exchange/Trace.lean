import ConsoleKit.Exchange

/-!
# The calls of an exchange

What an exchange does to its stream, call by call. The writing phase is described by `Writes`, which relates the
bytes that are left before some calls, the calls, and the bytes that are left after them; `sendAll_sound` is the
one statement about the recursion of `sendAll`, and the rest is read off the relation. The main result,
`run_trace`, holds for every command and every script of a stream.
-/

namespace ConsoleKit

/-- The bytes that a call took from what it was offered. -/
def StreamCall.taken : StreamCall → Bytes
  | .write offered (some count) => offered.take count
  | _ => []

namespace Exchange

/-- The bytes that calls took, in order. -/
def takenBy (calls : List StreamCall) : Bytes :=
  calls.flatMap StreamCall.taken

@[simp]
theorem takenBy_nil : takenBy [] = [] := rfl

@[simp]
theorem takenBy_cons (call : StreamCall) (calls : List StreamCall) :
    takenBy (call :: calls) = call.taken ++ takenBy calls := rfl

@[simp]
theorem takenBy_append (calls calls' : List StreamCall) :
    takenBy (calls ++ calls') = takenBy calls ++ takenBy calls' :=
  List.flatMap_append

/-! ## Writing -/

/-- Write calls, each of which offers all that is left: `left` before the first of them, `rest` after the last. -/
inductive Writes : (left : Bytes) → List StreamCall → (rest : Bytes) → Prop where
  | done (left : Bytes) : Writes left [] left
  | failed {left rest : Bytes} {calls : List StreamCall} (hne : left ≠ []) (h : Writes left calls rest) :
      Writes left (.write left none :: calls) rest
  | took {left rest : Bytes} {calls : List StreamCall} {count : Nat} (hne : left ≠ [])
      (hle : count ≤ left.length) (h : Writes (left.drop count) calls rest) :
      Writes left (.write left (some count) :: calls) rest

theorem Writes.takenBy_append {left rest : Bytes} {calls : List StreamCall} (h : Writes left calls rest) :
    takenBy calls ++ rest = left := by
  induction h with
  | done left => rfl
  | failed hne h ih => exact ih
  | took hne hle h ih => rw [takenBy_cons, List.append_assoc, ih]; exact List.take_append_drop _ _

/-- Every call is a write, of exactly the bytes that the calls before it did not take. -/
theorem Writes.getElem? {left rest : Bytes} {calls : List StreamCall} (h : Writes left calls rest) {i : Nat}
    {call : StreamCall} (hi : calls[i]? = some call) :
    ∃ offered count, call = .write offered count ∧ takenBy (calls.take i) ++ offered = left ∧ offered ≠ [] ∧
      ∀ n, count = some n → n ≤ offered.length := by
  induction h generalizing i with
  | done left => simp at hi
  | @failed left rest calls hne h ih =>
    cases i with
    | zero =>
      have hcall : StreamCall.write left none = call := by simpa using hi
      exact ⟨left, none, hcall.symm, rfl, hne, by simp⟩
    | succ i =>
      obtain ⟨offered, count, hcall, htaken, hoffered, hcount⟩ := ih (by simpa using hi)
      exact ⟨offered, count, hcall, htaken, hoffered, hcount⟩
  | @took left rest calls count hne hle h ih =>
    cases i with
    | zero =>
      have hcall : StreamCall.write left (some count) = call := by simpa using hi
      refine ⟨left, some count, hcall.symm, rfl, hne, ?_⟩
      intro n hn
      cases hn
      exact hle
    | succ i =>
      obtain ⟨offered, count', hcall, htaken, hoffered, hcount⟩ := ih (by simpa using hi)
      refine ⟨offered, count', hcall, ?_, hoffered, hcount⟩
      rw [List.take_succ_cons, takenBy_cons, List.append_assoc, htaken]
      exact List.take_append_drop _ _

theorem Writes.eq_write_of_mem {left rest : Bytes} {calls : List StreamCall} (h : Writes left calls rest)
    {call : StreamCall} (hcall : call ∈ calls) : ∃ offered count, call = .write offered count := by
  obtain ⟨i, hi⟩ := List.mem_iff_getElem?.1 hcall
  obtain ⟨offered, count, hwrite, -⟩ := h.getElem? hi
  exact ⟨offered, count, hwrite⟩

/-- What writing comes to: the calls are writes of what is left, the bytes taken are those of the calls, and
writing fails exactly if something is left. -/
structure Sending.Sound (left : Bytes) (sending : Sending) (rest : Bytes) : Prop where
  writes : Writes left sending.calls rest
  taken_eq : sending.taken = takenBy sending.calls
  failure_eq_none : sending.failure = none ↔ rest = []

/-- The one induction on the script of a stream. What a step leaves is what the next step starts from. -/
theorem sendAll_sound (left : Bytes) (steps : List WriteStep) : ∃ rest, (sendAll left steps).Sound left rest := by
  fun_induction sendAll left steps with
  | case1 steps => exact ⟨[], .done [], rfl, by simp⟩
  | case2 left hne =>
    have hdrop : left.drop left.length = [] := List.drop_length
    have hne' : left ≠ [] := fun h => hne h
    exact ⟨[], .took hne' (Nat.le_refl _) (hdrop ▸ .done _), by simp [StreamCall.taken], by simp⟩
  | case3 left steps hne ih => exact ih
  | case4 left text steps hne later ih =>
    obtain ⟨rest, hwrites, htaken, hfail⟩ := ih
    exact ⟨rest, .failed (fun h => hne h) hwrites, htaken, hfail⟩
  | case5 left text interrupted steps hne hint =>
    have hne' : left ≠ [] := fun h => hne h
    exact ⟨left, .failed hne' (.done left), rfl, by simp [hne']⟩
  | case6 left count steps hne took hempty =>
    have hne' : left ≠ [] := fun h => hne h
    exact ⟨left, .took hne' (Nat.zero_le _) (.done left), rfl, by simp [hne']⟩
  | case7 left count steps hne took hempty later ih =>
    obtain ⟨rest, hwrites, htaken, hfail⟩ := ih
    have hlen : took.length ≤ left.length := by
      show (left.take count).length ≤ left.length
      rw [List.length_take]
      omega
    have hdrop : left.drop took.length = left.drop count := by
      show left.drop (left.take count).length = left.drop count
      rw [List.length_take]
      rcases Nat.le_total count left.length with h | h
      · rw [Nat.min_eq_left h]
      · rw [Nat.min_eq_right h, List.drop_length, List.drop_eq_nil_of_le h]
    have htake : left.take took.length = took := by
      show left.take (left.take count).length = left.take count
      rw [List.length_take]
      rcases Nat.le_total count left.length with h | h
      · rw [Nat.min_eq_left h]
      · rw [Nat.min_eq_right h, List.take_length, List.take_of_length_le h]
    refine ⟨rest, .took (fun h => hne h) hlen (hdrop.symm ▸ hwrites), ?_, hfail⟩
    rw [takenBy_cons, StreamCall.taken, htake, ← htaken]

/-! ## Reading -/

theorem receive_call (steps : List ReadStep) : ∃ delivered, (receive steps).call = .read Frame.bufferSize delivered := by
  fun_induction receive steps with
  | case1 => exact ⟨some 0, rfl⟩
  | case2 steps ih => exact ih
  | case3 text interrupted steps => exact ⟨none, rfl⟩
  | case4 bytes steps delivered => exact ⟨some delivered.length, rfl⟩

/-! ## The whole exchange -/

/-- The two ways for an exchange to run: writing fails, and something of the command is left and nothing is read;
or the whole command is taken, and one read follows. -/
theorem run_cases (command : String) (script : Script) :
    (∃ text rest, (run command script).result = .error (.send text) ∧ rest ≠ [] ∧
      Writes (Text.Utf8.encodeString command) (run command script).calls rest ∧
      (run command script).written = takenBy (run command script).calls) ∨
    ∃ calls delivered, (∀ text, (run command script).result ≠ .error (.send text)) ∧
      Writes (Text.Utf8.encodeString command) calls [] ∧
      (run command script).calls = calls ++ [.read Frame.bufferSize delivered] ∧
      (run command script).written = takenBy calls := by
  obtain ⟨rest, hwrites, htaken, hfail⟩ := sendAll_sound (Text.Utf8.encodeString command) script.writes
  cases hfailure : (sendAll (Text.Utf8.encodeString command) script.writes).failure with
  | some text =>
    have hrest : rest ≠ [] := fun h => by simp [hfail.2 h] at hfailure
    left
    simp only [run, hfailure]
    exact ⟨text, rest, rfl, hrest, hwrites, htaken⟩
  | none =>
    have hrest : rest = [] := hfail.1 hfailure
    obtain ⟨delivered, hcall⟩ := receive_call script.reads
    right
    simp only [run, hfailure]
    refine ⟨_, delivered, ?_, hrest ▸ hwrites, by rw [hcall], htaken⟩
    intro text
    cases (receive script.reads).outcome <;> simp

/-- A position in calls with one more call after them: a position in the calls, or the one after them. -/
theorem getElem?_concat {calls : List StreamCall} {last call : StreamCall} {i : Nat}
    (h : (calls ++ [last])[i]? = some call) :
    calls[i]? = some call ∧ (calls ++ [last]).take i = calls.take i ∨
      call = last ∧ (calls ++ [last]).take i = calls ∧ i + 1 = (calls ++ [last]).length := by
  have hlt : i < calls.length + 1 := by
    have := (List.getElem?_eq_some_iff.1 h).1
    rwa [List.length_append] at this
  rcases Nat.lt_or_ge i calls.length with hi | hi
  · rw [List.getElem?_append_left hi] at h
    exact .inl ⟨h, List.take_append_of_le_length (by omega)⟩
  · have heq : i = calls.length := by omega
    subst heq
    rw [List.getElem?_concat_length] at h
    exact .inr ⟨(Option.some.inj h).symm, List.take_left, by simp⟩

theorem run_written_eq (command : String) (script : Script) :
    (run command script).written = takenBy (run command script).calls := by
  rcases run_cases command script with ⟨_, _, _, _, _, hwritten⟩ | ⟨calls, delivered, _, _, hcalls, hwritten⟩
  · exact hwritten
  · rw [hwritten, hcalls, takenBy_append]
    simp [StreamCall.taken]

theorem run_written_prefix (command : String) (script : Script) :
    (run command script).written <+: Text.Utf8.encodeString command := by
  rcases run_cases command script with ⟨_, rest, _, _, hwrites, hwritten⟩ | ⟨calls, _, _, hwrites, _, hwritten⟩
  · exact ⟨rest, hwritten ▸ hwrites.takenBy_append⟩
  · exact ⟨[], hwritten ▸ hwrites.takenBy_append⟩

theorem run_write_call {command : String} {script : Script} {i : Nat} {offered : Bytes} {count : Option Nat}
    (h : (run command script).calls[i]? = some (.write offered count)) :
    takenBy ((run command script).calls.take i) ++ offered = Text.Utf8.encodeString command ∧ offered ≠ [] ∧
      ∀ n, count = some n → n ≤ offered.length := by
  rcases run_cases command script with ⟨_, _, _, _, hwrites, _⟩ | ⟨calls, _, _, hwrites, hcalls, _⟩
  · obtain ⟨_, _, hcall, hoffered⟩ := hwrites.getElem? h
    cases hcall
    exact hoffered
  · rw [hcalls] at h ⊢
    rcases getElem?_concat h with ⟨hi, htake⟩ | ⟨hcall, _⟩
    · obtain ⟨_, _, hcall, hoffered⟩ := hwrites.getElem? hi
      cases hcall
      rw [htake]
      exact hoffered
    · cases hcall

theorem run_read_call {command : String} {script : Script} {i room : Nat} {delivered : Option Nat}
    (h : (run command script).calls[i]? = some (.read room delivered)) :
    room = Frame.bufferSize ∧ takenBy ((run command script).calls.take i) = Text.Utf8.encodeString command ∧
      i + 1 = (run command script).calls.length := by
  rcases run_cases command script with ⟨_, _, _, _, hwrites, _⟩ | ⟨calls, _, _, hwrites, hcalls, _⟩
  · obtain ⟨_, _, hcall, _⟩ := hwrites.getElem? h
    cases hcall
  · rw [hcalls] at h ⊢
    rcases getElem?_concat h with ⟨hi, _⟩ | ⟨hcall, htake, hlast⟩
    · obtain ⟨_, _, hcall, _⟩ := hwrites.getElem? hi
      cases hcall
    · cases hcall
      refine ⟨rfl, ?_, hlast⟩
      have hall := hwrites.takenBy_append
      rw [List.append_nil] at hall
      rw [htake, hall]

theorem run_mem_calls {command : String} {script : Script} {call : StreamCall}
    (h : call ∈ (run command script).calls) :
    (∃ offered count, call = .write offered count) ∨ ∃ room delivered, call = .read room delivered := by
  rcases run_cases command script with ⟨_, _, _, _, hwrites, _⟩ | ⟨calls, delivered, _, hwrites, hcalls, _⟩
  · exact .inl (hwrites.eq_write_of_mem h)
  · rw [hcalls, List.mem_append, List.mem_singleton] at h
    exact h.imp hwrites.eq_write_of_mem fun h => ⟨_, _, h⟩

theorem run_send_iff (command : String) (script : Script) :
    (∃ text, (run command script).result = .error (.send text)) ↔
      (run command script).written ≠ Text.Utf8.encodeString command := by
  rcases run_cases command script with
    ⟨text, rest, hresult, hrest, hwrites, hwritten⟩ | ⟨calls, _, hresult, hwrites, _, hwritten⟩
  · refine ⟨fun _ h => hrest ?_, fun _ => ⟨text, hresult⟩⟩
    rw [hwritten, ← hwrites.takenBy_append] at h
    exact List.append_right_eq_self.1 h.symm
  · refine ⟨fun ⟨text, h⟩ => absurd h (hresult text), fun h => absurd ?_ h⟩
    rw [hwritten, ← hwrites.takenBy_append, List.append_nil]

/-- Only a failure to send is shown as one. -/
theorem toError_eq_send_iff {failure : Failure} {text : String} :
    failure.toError = ⟨.connection, "send failed: " ++ text⟩ ↔ failure = .send text := by
  cases failure with
  | send text' =>
    simp only [Failure.toError, Error.mk.injEq, true_and, Failure.send.injEq]
    exact String.append_right_inj _
  | receive text' =>
    have hne : "recv failed: " ++ text' ≠ "send failed: " ++ text := by
      intro h
      have htoList := congrArg String.toList h
      simp [String.toList_append] at htoList
    simp [Failure.toError, hne]

theorem mapError_eq_send_iff {result : Except Failure Frame} {text : String} :
    result.mapError Failure.toError = .error ⟨.connection, "send failed: " ++ text⟩ ↔
      result = .error (.send text) := by
  cases result with
  | ok frame =>
    constructor <;> intro h <;> cases h
  | error failure =>
    show Except.error failure.toError = _ ↔ _
    rw [Except.error.injEq, Except.error.injEq, toError_eq_send_iff]

/-- An exchange writes the command and nothing else, then reads once. Whatever the stream does: the bytes that it
takes are a beginning of the command, every write offers exactly what is left of it and never nothing, the one read
comes last, after the whole command and with the whole buffer, and the exchange is shown as a failure to send
exactly if the stream took less than the command, in which case nothing is read. -/
theorem run_trace (command : String) (script : Script) :
    let bytes := Text.Utf8.encodeString command
    let transcript := run command script
    (transcript.written = takenBy transcript.calls ∧ transcript.written <+: bytes) ∧
    (∀ i offered count, transcript.calls[i]? = some (.write offered count) →
      takenBy (transcript.calls.take i) ++ offered = bytes ∧ offered ≠ [] ∧ ∀ n, count = some n → n ≤ offered.length) ∧
    (∀ i room delivered, transcript.calls[i]? = some (.read room delivered) →
      room = Frame.bufferSize ∧ takenBy (transcript.calls.take i) = bytes ∧ i + 1 = transcript.calls.length) ∧
    (.flush ∉ transcript.calls ∧ .shutdown ∉ transcript.calls) ∧
    ((∃ text, transcript.result.mapError Failure.toError = .error ⟨.connection, "send failed: " ++ text⟩) ↔
      transcript.written <+: bytes ∧ transcript.written ≠ bytes) ∧
    (transcript.written ≠ bytes → ∀ room delivered, .read room delivered ∉ transcript.calls) := by
  intro bytes transcript
  have hfront : transcript.written <+: bytes := run_written_prefix command script
  refine ⟨⟨run_written_eq command script, hfront⟩, fun i offered count h => run_write_call h,
    fun i room delivered h => run_read_call h, ⟨fun h => ?_, fun h => ?_⟩, ?_, fun hne room delivered h => ?_⟩
  · rcases run_mem_calls h with ⟨_, _, hcall⟩ | ⟨_, _, hcall⟩ <;> cases hcall
  · rcases run_mem_calls h with ⟨_, _, hcall⟩ | ⟨_, _, hcall⟩ <;> cases hcall
  · simp only [mapError_eq_send_iff]
    exact (run_send_iff command script).trans ⟨fun hne => ⟨hfront, hne⟩, fun h => h.2⟩
  · -- A read comes after the whole command, so that all of it is in what was written.
    obtain ⟨i, hi⟩ := List.mem_iff_getElem?.1 h
    obtain ⟨-, htaken, -⟩ := run_read_call hi
    have hle : bytes.length ≤ transcript.written.length := by
      rw [show transcript.written = takenBy transcript.calls from run_written_eq command script,
        ← List.take_append_drop i transcript.calls, takenBy_append, List.length_append, htaken]
      exact Nat.le_add_right _ _
    exact hne (hfront.eq_of_length_le hle)

end Exchange

end ConsoleKit
