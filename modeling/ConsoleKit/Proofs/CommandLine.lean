import ConsoleKit.CommandLine
import ConsoleKit.Proofs.Exchange.Reply
import ConsoleKit.Proofs.Planning
import ConsoleKit.Proofs.Writing
import Mathlib

/-!
# What a run of the command comes to

One lemma for each way that a run goes: no console is configured, there is no command, the console is not reached,
the exchange fails, or there is a reply. Each of them gives the whole outcome, so that nothing else is printed,
tried or sent. `run_outcome` puts them together.
-/

namespace ConsoleKit

namespace CommandLine

/-- Standard output takes everything. -/
theorem printReply_eq (frame : Frame) : printReply frame = { exitCode := 0, stdout := frame.rendering } := by
  have hunlimited : ({} : Writer).Unlimited := ⟨rfl, by simp⟩
  obtain ⟨writer, hprint, hwritten⟩ := frame.print_unlimited hunlimited rfl
  have hall : writer.written = frame.rendering := hwritten
  rw [printReply, hprint, ← hall]

/-! ## The ways of a run -/

section

variable {args : List String} {lookup : String → Option String} {network : Network} {ip command text : String}
  {script : Script} {failure : Exchange.Failure} {frame : Frame}

/-- Of the environment only the host variable is looked at. -/
theorem run_eq_carryOut (args : List String) (lookup : String → Option String) (network : Network) :
    run args lookup network = carryOut network (Plan.forHost args (lookup "IP")) :=
  rfl

/-- Of the arguments only the first is looked at. -/
theorem run_congr {args' : List String} {lookup' : String → Option String} (hargs : args'[1]? = args[1]?)
    (hlookup : lookup' Console.hostVariable = lookup Console.hostVariable) :
    run args' lookup' network = run args lookup network := by
  rw [run_eq_carryOut, run_eq_carryOut]
  exact congrArg _ (Plan.forHost_congr (congrArg (·.getD "") hlookup) hargs)

theorem run_of_no_host (h : lookup "IP" = none ∨ lookup "IP" = some "") :
    run args lookup network = { exitCode := 0, stdout := Text.Utf8.encodeString "IP is empty!\n" } := by
  rw [run_eq_carryOut, Plan.forHost_of_no_host (Plan.getD_eq_empty_iff.2 h)]
  rfl

theorem run_of_no_command (hip : lookup "IP" = some ip) (hne : ip ≠ "") (hargs : args[1]? = none) :
    run args lookup network = .failed Plan.usageLine := by
  rw [run_eq_carryOut, hip, Plan.forHost_of_no_command hne hargs]
  rfl

section

variable (hip : lookup "IP" = some ip) (hne : ip ≠ "") (hargs : args[1]? = some command)
include hip hne hargs

theorem run_of_command :
    run args lookup network = perform network (.send (Console.ofHost ip) command) := by
  rw [run_eq_carryOut, hip, Plan.forHost_of_command hne hargs]
  rfl

/-- The record of the attempts is the one that was kept of sending the command. -/
theorem attempts_of_command : (run args lookup network).attempts = [Console.ofHost ip] := by
  rw [run_of_command hip hne hargs, perform, Console.send_eq]

theorem run_of_unreached (hconnect : network (Console.ofHost ip) = .error text) :
    run args lookup network =
      { Outcome.failed (Console.Failure.connect (Console.ofHost ip) text).toError.message with
        attempts := [Console.ofHost ip] } := by
  rw [run_of_command hip hne hargs, perform, Console.send_of_unreached hconnect]
  rfl

theorem run_of_failure (hconnect : network (Console.ofHost ip) = .ok script)
    (hresult : (Exchange.run command script).result = .error failure) :
    run args lookup network =
      { Outcome.failed failure.toError.message with
        attempts := [Console.ofHost ip], received := some (Exchange.run command script).written } := by
  rw [run_of_command hip hne hargs, perform, Console.send_of_reached hconnect, hresult]
  rfl

theorem run_of_reply (hconnect : network (Console.ofHost ip) = .ok script)
    (hresult : (Exchange.run command script).result = .ok frame) :
    run args lookup network =
      { exitCode := 0, stdout := frame.rendering, attempts := [Console.ofHost ip],
        received := some (Text.Utf8.encodeString command) } := by
  obtain ⟨hwritten, -⟩ := Exchange.run_of_ok hresult
  rw [run_of_command hip hne hargs, perform, Console.send_of_reached hconnect, hresult, hwritten]
  simp only [Except.mapError, printReply_eq]

end

end

/-! ## Every run -/

/-- **A run, end to end.** Without a console a run says so and ends well, whatever the arguments are; without a
command it fails. Otherwise it makes one attempt to connect, and prints the reply that the one read delivered,
be it flagged as failed, or fails and prints nothing. Other arguments and other variables change nothing. -/
theorem run_outcome (args : List String) (lookup : String → Option String) (network : Network) :
    let outcome := run args lookup network
    (lookup "IP" = none ∨ lookup "IP" = some "" →
      outcome.attempts = [] ∧ outcome.received = none ∧
      outcome.stdout = Text.Utf8.encodeString "IP is empty!\n" ∧ outcome.exitCode = 0) ∧
    (∀ ip, lookup "IP" = some ip → ip ≠ "" → args[1]? = none →
      outcome.attempts = [] ∧ outcome.received = none ∧ outcome.stdout = [] ∧ outcome.exitCode = 1) ∧
    (∀ ip command, lookup "IP" = some ip → ip ≠ "" → args[1]? = some command →
      outcome.attempts = [⟨ip, 6969⟩] ∧
      (∀ text, network ⟨ip, 6969⟩ = .error text →
        outcome.received = none ∧ outcome.stdout = [] ∧ outcome.exitCode = 1) ∧
      (∀ script, network ⟨ip, 6969⟩ = .ok script →
        (∀ failure, (Exchange.run command script).result = .error failure →
          outcome.stdout = [] ∧ outcome.exitCode = 1) ∧
        (∀ frame, (Exchange.run command script).result = .ok frame →
          ∃ data, Exchange.receive script.reads = ⟨.ok data, .read Frame.bufferSize (some data.length)⟩ ∧
            outcome.stdout = (Frame.decode data).rendering ∧ outcome.exitCode = 0 ∧
            outcome.received = some (Text.Utf8.encodeString command)))) ∧
    (∀ args' lookup', args'[1]? = args[1]? → lookup' "IP" = lookup "IP" → run args' lookup' network = outcome) := by
  refine ⟨fun h => ?_, fun ip hip hne hargs => ?_, fun ip command hip hne hargs => ⟨?_, ?_, ?_⟩,
    fun args' lookup' hargs hlookup => run_congr hargs hlookup⟩
  · rw [run_of_no_host h]
    exact ⟨rfl, rfl, rfl, rfl⟩
  · rw [run_of_no_command hip hne hargs]
    exact ⟨rfl, rfl, rfl, rfl⟩
  · exact attempts_of_command hip hne hargs
  · intro text hconnect
    rw [run_of_unreached hip hne hargs hconnect]
    exact ⟨rfl, rfl, rfl⟩
  · intro script hconnect
    refine ⟨fun failure hresult => ?_, fun frame hresult => ?_⟩
    · rw [run_of_failure hip hne hargs hconnect hresult]
      exact ⟨rfl, rfl⟩
    · obtain ⟨-, data, hread, rfl⟩ := Exchange.run_of_ok hresult
      rw [run_of_reply hip hne hargs hconnect hresult]
      exact ⟨data, Exchange.receive_of_ok hread, rfl, rfl, rfl⟩

/-- A reply flagged as failed is printed behind a notice, and the run ends well. -/
theorem run_outcome_flagged :
    let outcome := run ["run-lua", "a", "b"] (fun name => if name = "IP" then some "h" else none)
      (Network.always { reads := [.deliver [0, 0, 0, 1, 0x78]] })
    outcome.attempts = [⟨"h", 6969⟩] ∧ outcome.received = some [0x61] ∧ outcome.exitCode = 0 ∧
      outcome.stdout = Text.Utf8.encodeString "Request failed\nx\n" := by
  intro outcome
  obtain ⟨-, -, hsent, -⟩ := run_outcome ["run-lua", "a", "b"] (fun name => if name = "IP" then some "h" else none)
    (Network.always { reads := [.deliver [0, 0, 0, 1, 0x78]] })
  obtain ⟨hattempts, -, hreached⟩ := hsent "h" "a" (by simp) (by decide) rfl
  obtain ⟨-, hreply⟩ := hreached { reads := [.deliver [0, 0, 0, 1, 0x78]] } rfl
  obtain ⟨data, hread, hstdout, hexit, hreceived⟩ := hreply ⟨false, 1, [0x78]⟩ (by cbv)
  have hdata : data = [0, 0, 0, 1, 0x78] := by
    have houtcome := congrArg Exchange.Receiving.outcome hread
    exact (Except.ok.inj houtcome).symm
  refine ⟨hattempts, hreceived.trans (by cbv), hexit, hstdout.trans ?_⟩
  rw [hdata]
  cbv

end CommandLine

end ConsoleKit
