import Intake.Fault

/-!
Functions that users supply: a value in; a value or a fault out, along with the tagged calls made.
-/
namespace Intake

/-- A tagged function and the value it was called with. -/
structure Call where
  tag : String
  argument : Value
  deriving Inhabited

structure Callback where
  label : Option String
  apply : Value → List Call × Except Fault Value
  deriving Inhabited

namespace Callback

def ofPartial (label : String) (f : Value → Except Fault Value) : Callback :=
  ⟨some label, fun v => ([], f v)⟩

def ofFunction (label : String) (f : Value → Value) : Callback := ofPartial label fun v => .ok (f v)

end Callback

end Intake
