import Intake.Callback
import Intake.Value.Equality

/-!
Value transformations as data, so that callbacks can be written down. A tagged call is entered
before the transformation can fail.
-/
namespace Intake

inductive Condition where
  | isAbsent
  | isNull
  | hasType (names : List String)
  | negated (of : Condition)
  | longerThan (size : Int)
  | greaterThan (n : Int)
  | lessThan (n : Int)
  | equalTo (n : Int)
  deriving Inhabited

inductive Transform where
  | identity
  | constant (value : Value)
  | display
  | literal
  | typeName
  | wrap
  | format (template : String)
  | choose (test : Condition) (whenTrue whenFalse : Transform)
  | chain (steps : List Transform)
  | complain (kind : Category) (message : Value)
  | add (n : Int)
  | multiply (n : Int)
  | append (suffix : String)
  | readInteger
  | size
  | get (key : Value)
  | tagged (tag : String) (of : Transform)
  deriving Inhabited

def Value.expectInteger (v : Value) : Except Fault Int :=
  match v with
  | .int n => .ok n
  | _ => .error (.expected .integer)

def Value.expectText (v : Value) : Except Fault String :=
  match v with
  | .text s => .ok s
  | _ => .error (.expected .text)

def Value.expectSize (v : Value) : Except Fault Nat :=
  match v.size? with
  | some n => .ok n
  | none => .error (.expected .sized)

def Value.expectEntries (v : Value) : Except Fault (List (Value × Value)) :=
  match v.entries? with
  | some entries => .ok entries
  | none => .error (.expected .mapping)

def Condition.holds : Condition → Value → Except Fault Bool
  | .isAbsent, v => .ok v.isAbsent
  | .isNull, v => .ok v.isNull
  | .hasType names, v => .ok (names.contains v.typeName)
  | .negated test, v => (test.holds v).map not
  | .longerThan size, v => v.expectSize.map fun n => size < n
  | .greaterThan n, v => v.expectInteger.map fun m => n < m
  | .lessThan n, v => v.expectInteger.map fun m => m < n
  | .equalTo n, v => v.expectInteger.map fun m => m == n

/-- The text that `write` makes of a value, provided that the value can be written. -/
def Value.written (write : Value → String) (v : Value) : Except Fault Value :=
  if v.isWritable then .ok (.text (write v)) else .error .unwritableInteger

/-- A decimal integer: an optional sign and ASCII digits, at least one and not too many. -/
def readInteger (s : String) : Except Fault Int :=
  let (negative, digits) := Text.splitSign s.toList
  if digits.isEmpty || !digits.all Char.isDigit then .error (.notAnInteger s)
  else if Text.longestNumeral < digits.length then .error (.unreadableInteger digits.length)
  else .ok (if negative then -(Text.digitsValue digits) else Text.digitsValue digits)

def Value.readInteger (v : Value) : Except Fault Value := do
  let s ← v.expectText
  let n ← Intake.readInteger s
  return .int n

def placeholder : String := "\x7b\x7d"

/-- A fault of a user's own. The kinds without a location accept any message. -/
def Fault.ofUser (kind : Category) (message : Value) : Fault :=
  match kind with
  | .located grade => Fault.locate grade message []
  | .other complaint => .complained complaint message.display

namespace Transform

mutual

def apply : Transform → Value → List Call × Except Fault Value
  | .identity, v => ([], .ok v)
  | .constant w, _ => ([], .ok w)
  | .display, v => ([], v.written Value.display)
  | .literal, v => ([], v.written Value.literal)
  | .typeName, v => ([], .ok (.text v.typeName))
  | .wrap, v => ([], .ok (.list [v]))
  | .format template, v => ([], v.written fun w => template.replace placeholder w.display)
  | .choose test whenTrue whenFalse, v =>
    match test.holds v with
    | .error fault => ([], .error fault)
    | .ok true => whenTrue.apply v
    | .ok false => whenFalse.apply v
  | .chain steps, v => applyAll steps v
  | .complain kind message, _ => ([], .error (Fault.ofUser kind message))
  | .add n, v => ([], v.expectInteger.map fun m => .int (m + n))
  | .multiply n, v => ([], v.expectInteger.map fun m => .int (m * n))
  | .append suffix, v => ([], v.expectText.map fun s => .text (s ++ suffix))
  | .readInteger, v => ([], v.readInteger)
  | .size, v => ([], v.expectSize.map fun n => .int n)
  | .get key, v => ([], v.expectEntries.map fun entries => Value.lookup key entries)
  | .tagged tag of, v =>
    let (calls, result) := of.apply v
    (⟨tag, v⟩ :: calls, result)

def applyAll : List Transform → Value → List Call × Except Fault Value
  | [], v => ([], .ok v)
  | step :: rest, v =>
    let (calls, result) := step.apply v
    match result with
    | .error fault => (calls, .error fault)
    | .ok w =>
      let (more, result) := applyAll rest w
      (calls ++ more, result)

end

def toCallback (t : Transform) (label : Option String) : Callback := ⟨label, t.apply⟩

end Transform

end Intake
