import Intake.Decoder.Meaning
import Intake.Transform

/-!
Two demonstrations: decoding as it is meant to go, and the reports of what went wrong. Each is the
list of lines it shows, computed by running decoders.
-/
namespace Intake.Demonstration

def text (s : String) : Value := .text s

def record (fields : List (String × Value)) : Value :=
  .mapping .plain (fields.map fun field => (.text field.1, field.2))

def fields (declared : List (String × Decoder)) : Decoder :=
  .object (declared.map fun field => (.text field.1, field.2))

def attempt (d : Decoder) (v : Value) (config : Config) : Except Stop Value :=
  (d.run [] 0 config v).outcome

def report (shown : Value → String) : Except Stop Value → String
  | .ok v => shown v
  | .error (.fault f) => f.message
  | .error .exhausted => ""

def rule (width : Nat) : String := String.ofList (List.replicate width '=')

def user : Decoder := fields [
  ("name", .primitive .string),
  ("age", .optional (.primitive .number)),
  ("admin", .withDefault (.optional (.primitive .boolean)) (.value (.bool false))),
  ("joined", .primitive .dateTime),
  ("tags", .withDefault (.optional (.array (.primitive .string)))
    (.supplier (.ofFunction "list" fun _ => .list [])))]

def port : Decoder :=
  .alt [.primitive .number, .map (.primitive .string) (.ofPartial "int" Value.readInteger)]

def outOfRange (v : Value) : Value :=
  match v.toNumber? with
  | none => .null
  | some n =>
    if (Quantity.exactly 0).le n.quantity && n.quantity.le (.exactly 100) then .null
    else .text ("Value " ++ v.display ++ " is out of range")

def percentage : Decoder :=
  .postCondition (.primitive .number) (.ofFunction "percentage" outOfRange)

/-- Required and optional fields, transformed values, and validation. -/
def basics : List String :=
  let ada := record [("name", text "Ada"), ("joined", text "2024-01-15T08:00:00Z")]
  let decoded (d : Decoder) (v : Value) (shown : Value → String) : String :=
    report shown (attempt d v Config.default)
  let ports := [Value.int 8080, text "8443"].map fun raw =>
    raw.literal ++ " -> " ++ decoded port raw Value.literal
  ["dataparser - Basic Usage Demo", rule 30,
    "", "1. Required and Optional Fields",
    "Input:  " ++ ada.display,
    "Result: " ++ decoded user ada Value.display,
    "", "2. Transforming Values"] ++ ports ++
  ["", "3. Validation",
    "42 -> " ++ decoded percentage (.int 42) Value.display,
    "Error caught: " ++ decoded (.array percentage) (.list [.int 10, .int 250]) Value.display]

def order : Decoder := fields [
  ("id", .primitive .string),
  ("lines", .array (fields [("sku", .primitive .string), ("quantity", .primitive .number)]))]

def location : Except Stop Value → String × List Value
  | .error (.fault (.located _ base path)) => (base, path)
  | _ => ("", [])

def pairsOnly : Config :=
  ⟨some { Limits.standard with items := .whole 2 }, none⟩

/-- Locations, missing fields, exhausted alternatives, and structural limits. -/
def errors : List String :=
  let badLine := record [("id", text "A-1"),
    ("lines", .list [record [("sku", text "X"), ("quantity", text "two")]])]
  let misplaced := attempt order badLine Config.default
  let (base, path) := location misplaced
  let incomplete := attempt order (record [("lines", .list [])]) Config.default
  let unmatched :=
    attempt (.alt [.primitive .string, .primitive .number]) (.bool true) Config.default
  let crowded :=
    attempt (.array (.primitive .number)) (.list [.int 1, .int 2, .int 3]) pairsOnly
  ["dataparser - Error Reporting Demo", rule 33,
    "", "1. Error with Location Path", "Error caught:", report Value.display misplaced,
    "Base message: " ++ base,
    "Path:         " ++ (Value.list path).display,
    "", "2. Missing Required Field", "Error caught:", report Value.display incomplete,
    "", "3. Alternatives", "Error caught:", report Value.display unmatched,
    "", "4. Structural Limits", "Security error caught:", report Value.display crowded]

def named? : String → Option (List String)
  | "demo" => some basics
  | "error_demo" => some errors
  | _ => none

end Intake.Demonstration
