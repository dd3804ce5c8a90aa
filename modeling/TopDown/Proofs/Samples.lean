import TopDown.Calc
import TopDown.Json.Language
import TopDown.Proofs.Recording

/-!
# The sample languages are plain

Both sample languages are what their drafts build, and all their rules are plain. So whatever holds
of plain languages holds of them.
-/

namespace TopDown

theorem eq_ok_getOk {ε α : Type} {x : Except ε α} (h : x.isOk = true) : x = .ok (getOk x h) := by
  match x, h with
  | .ok a, _ => rfl

theorem Calc.build_draft : Calc.draft.build = .ok Calc.language := eq_ok_getOk _

theorem Calc.plain_draft : Calc.draft.Plain := by decide

theorem Json.build_draft : Json.draft.build = .ok Json.language := eq_ok_getOk _

theorem Json.plain_draft : Json.draft.Plain := by decide

end TopDown
