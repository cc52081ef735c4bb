import ConsoleKit.Deployment.Failure
import ConsoleKit.Proofs.Text.Quoting

/-!
# What the message of a failed deployment tells

A message is made of three pieces: words for what was done, the path in quotes, and the reason. No quote is in the words,
and the quoted path tells where it ends, so that the pieces can be told apart whatever is in the path and in the reason
(`Failure.text_inj`). Two failures are therefore shown alike only if they are the same failure, as far as anybody can see
(`message_tells_failure`).
-/

namespace ConsoleKit

namespace Path

/-- A path in quotes, with something behind it, tells what the path is and what is behind it. -/
theorem quoted_append_inj {path path' : Path} {x y : List Char}
    (h : path.quoted.toList ++ x = path'.quoted.toList ++ y) : path = path' ∧ x = y := by
  unfold quoted at h
  rw [String.toList_ofList, String.toList_ofList] at h
  obtain ⟨hspelling, hrest⟩ := Text.Quoted.ofBytes_append_inj h
  cases path
  cases path'
  exact ⟨congrArg mk hspelling, hrest⟩

theorem quoted_inj {path path' : Path} : path.quoted = path'.quoted ↔ path = path' := by
  constructor
  · intro h
    exact (quoted_append_inj (congrArg (String.toList · ++ []) h)).1
  · rintro rfl
    rfl

end Path

namespace Deployment

/-- What was being done when a call failed. If the source is no directory no call failed. -/
def Failure.action? : Failure → Option Action
  | .call action _ _ => some action
  | .notDirectory _ => none

/-- The text of the system's reason, if a call failed. -/
def Failure.reasonText? : Failure → Option String
  | .call _ _ reason => some reason.text
  | .notDirectory _ => none

/-- The words in front of the path. -/
def opening : Option Action → String
  | some action => action.text ++ " "
  | none => "source "

/-- The words behind the path. -/
def closing : Option String → String
  | some reason => " failed: " ++ reason
  | none => " is not a directory"

theorem Failure.text_eq (failure : Failure) :
    failure.text = opening failure.action? ++ failure.path.quoted ++ closing failure.reasonText? := by
  cases failure with
  | call action path reason =>
    show action.text ++ " " ++ path.quoted ++ " failed: " ++ reason.text =
      action.text ++ " " ++ path.quoted ++ (" failed: " ++ reason.text)
    exact String.append_assoc
  | notDirectory source => rfl

theorem quote_notMem_opening (action : Option Action) : '"' ∉ (opening action).toList := by
  rcases action with _ | action
  · decide
  · cases action <;> decide

theorem opening_inj {action action' : Option Action} (h : opening action = opening action') : action = action' := by
  revert h
  rcases action with _ | action <;> rcases action' with _ | action'
  · decide
  · cases action' <;> decide
  · cases action <;> decide
  · cases action <;> cases action' <;> decide

theorem closing_inj {reason reason' : Option String} (h : (closing reason).toList = (closing reason').toList) :
    reason = reason' := by
  rcases reason with _ | reason <;> rcases reason' with _ | reason'
  · rfl
  · simp [closing, String.toList_append] at h
  · simp [closing, String.toList_append] at h
  · simpa [closing, String.toList_append, String.toList_inj] using h

/-- Two failures have the same text only if they agree in all that they tell. -/
theorem Failure.text_inj {failure failure' : Failure} (h : failure.text = failure'.text) :
    failure.action? = failure'.action? ∧ failure.path = failure'.path ∧ failure.reasonText? = failure'.reasonText? := by
  have hquoted : ∀ path : Path, ∃ inner, path.quoted.toList = '"' :: inner :=
    fun path => ⟨_, by rw [Path.quoted, String.toList_ofList]; rfl⟩
  have htext := congrArg String.toList h
  rw [Failure.text_eq, Failure.text_eq] at htext
  simp only [String.toList_append, List.append_assoc] at htext
  obtain ⟨inner, hinner⟩ := hquoted failure.path
  obtain ⟨inner', hinner'⟩ := hquoted failure'.path
  have hpieces := htext
  rw [hinner, hinner', List.cons_append, List.cons_append] at hpieces
  obtain ⟨hopening, -⟩ := Text.Quoted.append_mark_inj (quote_notMem_opening _) (quote_notMem_opening _) hpieces
  rw [hopening] at htext
  obtain ⟨hpath, hclosing⟩ := Path.quoted_append_inj (List.append_cancel_left htext)
  exact ⟨opening_inj (String.toList_inj.1 hopening), hpath, closing_inj hclosing⟩

/-- **The message of a failed deployment tells what failed.** Two messages are the same just if the same was done, or in both
cases the source was no directory; to the same path, byte for byte; and with the same reason. In particular no two paths look
the same in a message. -/
theorem message_tells_failure :
    (∀ failure failure' : Failure, failure.toError.message = failure'.toError.message ↔
      failure.action? = failure'.action? ∧ failure.path = failure'.path ∧ failure.reasonText? = failure'.reasonText?) ∧
    ∀ path path' : Path, path.quoted = path'.quoted ↔ path.spelling = path'.spelling := by
  refine ⟨fun failure failure' => ⟨fun h => Failure.text_inj ?_, ?_⟩, fun path path' => ?_⟩
  · have hmessage : "Deploy error: " ++ failure.text = "Deploy error: " ++ failure'.text := h
    exact String.append_right_inj _ |>.1 hmessage
  · rintro ⟨haction, hpath, hreason⟩
    have htext : failure.text = failure'.text := by
      rw [Failure.text_eq, Failure.text_eq, haction, hpath, hreason]
    exact congrArg ("Deploy error: " ++ ·) htext
  · rw [Path.quoted_inj]
    cases path
    cases path'
    exact Path.mk.injEq _ _ ▸ Iff.rfl

/-- A path in which there is what looks like an escape, a quote and the words of a message: it is not taken for another. -/
example : (Path.ofString "a\\x62\" failed: ").quoted = "\"a\\\\x62\\\" failed: \"" := by decide +kernel

end Deployment

end ConsoleKit
