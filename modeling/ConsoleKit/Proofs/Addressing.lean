import ConsoleKit.Network
import ConsoleKit.Proofs.Text.Decimal

/-!
# What an address tells

An address is the host, a colon and the port. Any text can be a host, also one that ends in a colon and digits, and still
an address can be taken apart in one way only: no colon is in the decimal form of a port, so that the last colon is the one
in front of it (`splitLast?_address`). An address therefore tells the host and the port (`address_inj`), and so does the
message of a failed attempt to connect, as long as the reason is the same (`Failure.message_connect_inj`).
-/

namespace ConsoleKit

namespace Text

/-- What is in front of the last mark in a text, and what is behind it. -/
def splitLast? (mark : Char) : List Char → Option (List Char × List Char)
  | [] => none
  | c :: rest =>
    match splitLast? mark rest with
    | some (before, after) => some (c :: before, after)
    | none => if c = mark then some ([], rest) else none

section

variable {mark : Char} {text before after : List Char}

theorem splitLast?_eq_none_iff : splitLast? mark text = none ↔ mark ∉ text := by
  fun_induction splitLast? mark text with
  | case1 => simp
  | case2 c rest before after hrest ih =>
    have hmem : mark ∈ rest := by simpa [hrest] using ih
    simp [hmem]
  | case3 rest hrest ih => simp
  | case4 c rest hrest hne ih =>
    have hmem : mark ∉ rest := ih.1 hrest
    simp [hmem, Ne.symm hne]

theorem splitLast?_append (h : mark ∉ after) : splitLast? mark (before ++ mark :: after) = some (before, after) := by
  induction before with
  | nil => simp only [List.nil_append, splitLast?, splitLast?_eq_none_iff.2 h, if_true]
  | cons c before ih => simp only [List.cons_append, splitLast?, ih]

theorem eq_append_of_splitLast? (h : splitLast? mark text = some (before, after)) :
    text = before ++ mark :: after ∧ mark ∉ after := by
  fun_induction splitLast? mark text generalizing before with
  | case1 => cases h
  | case2 c rest front back hrest ih =>
    cases h
    obtain ⟨hsplit, hlast⟩ := ih hrest
    exact ⟨by rw [hsplit, List.cons_append], hlast⟩
  | case3 rest hrest ih =>
    cases h
    exact ⟨rfl, splitLast?_eq_none_iff.1 hrest⟩
  | case4 c rest hrest hne ih => cases h

/-- A text is split at the mark behind which there is no other one. -/
theorem splitLast?_eq_some_iff :
    splitLast? mark text = some (before, after) ↔ text = before ++ mark :: after ∧ mark ∉ after := by
  constructor
  · exact eq_append_of_splitLast?
  · rintro ⟨rfl, hlast⟩
    exact splitLast?_append hlast

end

end Text

namespace Console

variable {console console' : Console} {text : String} {digits : List Char}

theorem eq_iff : console = console' ↔ console.host = console'.host ∧ console.port = console'.port := by
  cases console
  cases console'
  simp only [mk.injEq]

/-! ## Addresses -/

theorem toList_address (h : Text.IsDecimal digits console.port.toNat) :
    console.address.toList = console.host.toList ++ ':' :: digits := by
  rw [h.eq_toDigits, address, Nat.toString_eq_ofList_toDigits]
  simp only [String.toList_append, String.toList_ofList, List.append_assoc]
  rfl

/-- The last colon of an address is the one in front of the port, whatever is in the host. -/
theorem splitLast?_address (h : Text.IsDecimal digits console.port.toNat) :
    Text.splitLast? ':' console.address.toList = some (console.host.toList, digits) := by
  have hcolon : ':' ∉ digits := fun hmem => absurd (h.isDigit hmem) (by decide)
  exact Text.splitLast?_eq_some_iff.2 ⟨toList_address h, hcolon⟩

theorem address_inj : console.address = console'.address ↔ console = console' := by
  constructor
  · intro haddress
    have hport := Text.isDecimal_toDigits console.port.toNat
    have hport' := Text.isDecimal_toDigits console'.port.toNat
    have hsplit := splitLast?_address hport
    rw [haddress, splitLast?_address hport', Option.some.injEq, Prod.mk.injEq] at hsplit
    obtain ⟨hhost, hdigits⟩ := hsplit
    rw [hdigits] at hport'
    exact eq_iff.2 ⟨(String.toList_inj.1 hhost).symm, UInt16.toNat_inj.1 (hport.number_unique hport')⟩
  · rintro rfl
    rfl

/-! ## Failed attempts to connect -/

/-- The message of a failed attempt to connect, in pieces. -/
theorem Failure.message_connect (console : Console) (text : String) :
    (Failure.connect console text).toError.message =
      "Connection error: " ++ ("connect to " ++ console.address ++ " failed: " ++ text) := rfl

/-- With the same reason the message tells the console. -/
theorem Failure.message_connect_inj :
    (Failure.connect console text).toError.message = (Failure.connect console' text).toError.message ↔
      console = console' := by
  rw [message_connect, message_connect, String.append_right_inj, String.append_left_inj, String.append_left_inj,
    String.append_right_inj, address_inj]

/-! ## Every two consoles -/

/-- **An address identifies the console.** Whatever the hosts are, two addresses are the same just if host and port are. At
its last colon an address is split into the host and the one decimal form of the port. Two attempts to connect that fail for
the same reason, in whatever networks and with whatever commands, are reported as errors of the connection whose messages are
the same just if host and port are. -/
theorem address_identifies (console console' : Console) :
    (console.address = console'.address ↔ console = console') ∧
    (∃ digits, (∀ other, Text.IsDecimal other console.port.toNat ↔ other = digits) ∧
      Text.splitLast? ':' console.address.toList = some (console.host.toList, digits)) ∧
    (∀ (network network' : Network) (command command' text : String),
      network console = .error text → network' console' = .error text →
      ∃ failure failure', (console.send network command).result = .error failure ∧
        (console'.send network' command').result = .error failure' ∧
        failure.toError.kind = .connection ∧ failure'.toError.kind = .connection ∧
        (failure.toError.message = failure'.toError.message ↔
          console.host = console'.host ∧ console.port = console'.port)) := by
  refine ⟨address_inj, ?_, fun network network' command command' text h h' => ?_⟩
  · exact ⟨_, fun other => Text.isDecimal_iff, splitLast?_address (Text.isDecimal_toDigits _)⟩
  · rw [send_of_unreached h, send_of_unreached h']
    refine ⟨_, _, rfl, rfl, rfl, rfl, ?_⟩
    rw [Failure.message_connect_inj, eq_iff]

/-- A host that itself looks like an address is told from the same host without the port. -/
theorem address_identifies_portInHost :
    let console := ofHost "localhost:40000"
    let console' := (ofHost "localhost").withPort 40000
    Network.unreachable console = .error Network.noRoute ∧ Network.unreachable console' = .error Network.noRoute ∧
      console.address ≠ console'.address ∧
      Text.splitLast? ':' console.address.toList = some ("localhost:40000".toList, ['6', '9', '6', '9']) ∧
      ∃ failure failure', (console.send Network.unreachable "quit").result = .error failure ∧
        (console'.send Network.unreachable "quit").result = .error failure' ∧
        failure.toError.message ≠ failure'.toError.message := by
  intro console console'
  have hunreached : Network.unreachable (ofHost "localhost:40000") = .error Network.noRoute := rfl
  have hunreached' : Network.unreachable ((ofHost "localhost").withPort 40000) = .error Network.noRoute := rfl
  have hport : console.port ≠ console'.port := by decide
  obtain ⟨haddress, ⟨digits, hdecimal, hsplit⟩, hfailed⟩ := address_identifies console console'
  obtain ⟨failure, failure', hresult, hresult', -, -, hmessage⟩ := hfailed _ _ "quit" "quit" _ hunreached hunreached'
  have hdigits : ['6', '9', '6', '9'] = digits := (hdecimal _).1 (Text.isDecimal_toDigits 6969)
  refine ⟨hunreached, hunreached', fun h => hport (congrArg port (haddress.1 h)), ?_, failure, failure', hresult, hresult',
    fun h => hport (hmessage.1 h).2⟩
  rw [hsplit, hdigits]
  rfl

/-- With another reason the same message may stand for another console. -/
example : (Failure.connect ⟨"a", 1⟩ "b:2 failed: c").toError.message =
    (Failure.connect ⟨"a:1 failed: b", 2⟩ "c").toError.message := by decide +kernel

end Console

end ConsoleKit
