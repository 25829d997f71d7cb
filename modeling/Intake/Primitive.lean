import Intake.Moment.Reader
import Intake.Value.Text
import Intake.Url.Basic

/-!
The decoders that look at nothing but one value.

`Primitive.accept` says what each makes of a value and, of a value it refuses, what it says.
-/
namespace Intake

inductive Primitive where
  | string
  | number
  | boolean
  | dateTime
  | identity
  | unknown
  | record
  | url
  deriving DecidableEq, Repr, Inhabited

namespace Primitive

def name : Primitive → String
  | .string => "string"
  | .number => "number"
  | .boolean => "boolean"
  | .dateTime => "date_time"
  | .identity => "identity"
  | .unknown => "unknown"
  | .record => "record"
  | .url => "url"

end Primitive

def refusal (v : Value) (wanted : String) : String := "Value " ++ v.display ++ " is not " ++ wanted

def notAnObject (v : Value) : String := refusal v "an object"

def notAnArray (v : Value) : String := refusal v "an array"

def notAString (v : Value) : String := refusal v "a string"

def notADateTime (v : Value) : String := refusal v "a date and time"

def invalidUrl (s : String) : String := "Invalid URL \"" ++ s ++ "\""

def unexpectedData : String := "Unexpected data"

namespace Primitive

/-- The decoded value, or the reason for refusing it. -/
def accept : Primitive → Value → Except String Value
  | .string, .text s => .ok (.text s)
  | .string, v => .error (notAString v)
  | .number, .int n => .ok (.int n)
  | .number, .float x => .ok (.float x)
  | .number, v => .error (refusal v "a number")
  | .boolean, .bool b => .ok (.bool b)
  | .boolean, v => .error (refusal v "a boolean")
  | .dateTime, .text s =>
    match Moment.accept? s with
    | some m => .ok (.moment m)
    | none => .error (notADateTime (.text s))
  | .dateTime, v => .error (notAString v)
  | .identity, v => .ok v
  | .unknown, v => .ok v
  | .record, .mapping kind entries => .ok (.mapping kind entries)
  | .record, v => .error (notAnObject v)
  | .url, .text s => if Url.isValid s then .ok (.text s) else .error (invalidUrl s)
  | .url, v => .error (notAString v)

theorem accept_dateTime_text (s : String) :
    accept .dateTime (.text s) =
      match Moment.accept? s with
      | some m => .ok (.moment m)
      | none => .error (notADateTime (.text s)) := rfl

theorem accept_url_text (s : String) :
    accept .url (.text s) = if Url.isValid s then .ok (.text s) else .error (invalidUrl s) := rfl

end Primitive

end Intake
