import Intake.Fault
import Intake.Value.Text

/-!
What is never done: decoders, contexts and configurations do not change once they are made, and no
value but the mark itself, or its text, stands for the absent mark.
-/
namespace Intake

inductive Refusal where
  | assignToDecoder
  | assignToField (field : String)
  | notTheAbsentMark (value : Value)

namespace Refusal

def message : Refusal → String
  | .assignToDecoder => "Parser objects are immutable"
  | .assignToField field => "cannot assign to field " ++ Text.quoted field
  | .notTheAbsentMark v => v.literal ++ " is not a valid Absent"

def complaint : Refusal → Complaint
  | .assignToDecoder => .badAttribute
  | .assignToField _ => .frozenField
  | .notTheAbsentMark _ => .badValue

end Refusal

def Value.toAbsentMark (v : Value) : Except Refusal Value :=
  match v with
  | .absent => .ok .absent
  | .text "absent" => .ok .absent
  | v => .error (.notTheAbsentMark v)

end Intake
