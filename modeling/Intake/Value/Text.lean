import Intake.Moment.Writer
import Intake.Number.Decimal
import Intake.Text.Digits
import Intake.Text.Quoted
import Intake.Value.Basic

/-!
Two texts of a value: `literal`, its notation, and `display`, which shows a text as itself.
Integers that are too long have neither, so `isWritable` comes first.
-/
namespace Intake.Value

def openBrace : String := "\x7b"

def closeBrace : String := "\x7d"

def boolText (b : Bool) : String := if b then "True" else "False"

mutual

def literal : Value → String
  | .null => "None"
  | .absent => "absent"
  | .bool b => boolText b
  | .int n => toString n
  | .float x => x.text
  | .text s => Text.quoted s
  | .bytes content => Text.quotedBytes content
  | .list items => appendItems "[" items ++ "]"
  | .tuple [item] => "(" ++ item.literal ++ ",)"
  | .tuple items => appendItems "(" items ++ ")"
  | .mapping .plain entries => appendEntries openBrace entries ++ closeBrace
  | .mapping .readOnly entries =>
    appendEntries ("mappingproxy(" ++ openBrace) entries ++ closeBrace ++ ")"
  | .mapping .ordered [] => "OrderedDict()"
  | .mapping .ordered entries => appendPairs "OrderedDict([" entries ++ "])"
  | .moment m => m.literal
  | .foreign label => "<" ++ label ++ ">"

def appendItems (written : String) : List Value → String
  | [] => written
  | [item] => written ++ item.literal
  | item :: rest => appendItems (written ++ item.literal ++ ", ") rest

def appendEntries (written : String) : List (Value × Value) → String
  | [] => written
  | [(k, v)] => written ++ k.literal ++ ": " ++ v.literal
  | (k, v) :: rest => appendEntries (written ++ k.literal ++ ": " ++ v.literal ++ ", ") rest

def appendPairs (written : String) : List (Value × Value) → String
  | [] => written
  | [(k, v)] => written ++ "(" ++ k.literal ++ ", " ++ v.literal ++ ")"
  | (k, v) :: rest => appendPairs (written ++ "(" ++ k.literal ++ ", " ++ v.literal ++ "), ") rest

end

mutual

/-- Whether every integer in a value is short enough to be written. -/
def isWritable : Value → Bool
  | .int n => (Text.digits n.natAbs).length ≤ Text.longestNumeral
  | .list items => areWritable items
  | .tuple items => areWritable items
  | .mapping _ entries => areWritableEntries entries
  | _ => true

def areWritable : List Value → Bool
  | [] => true
  | item :: rest => item.isWritable && areWritable rest

def areWritableEntries : List (Value × Value) → Bool
  | [] => true
  | (k, v) :: rest => k.isWritable && v.isWritable && areWritableEntries rest

end

/-- The integers that can be written are those below a power of ten. -/
theorem isWritable_int_iff {n : Int} :
    (Value.int n).isWritable = true ↔ n.natAbs < Nat.pow 10 Text.longestNumeral := by
  rw [isWritable, decide_eq_true_iff, Text.length_digits_le_iff (by decide)]

theorem areWritable_iff {items : List Value} :
    areWritable items = true ↔ ∀ item ∈ items, item.isWritable = true := by
  induction items with
  | nil => simp [areWritable]
  | cons item rest ih => simp [areWritable, ih]

theorem areWritableEntries_iff {entries : List (Value × Value)} :
    areWritableEntries entries = true ↔
      ∀ entry ∈ entries, entry.1.isWritable = true ∧ entry.2.isWritable = true := by
  induction entries with
  | nil => simp [areWritableEntries]
  | cons entry rest ih => obtain ⟨k, v⟩ := entry; simp [areWritableEntries, ih, and_assoc]

/-- The text of a value inside a sentence. A read-only mapping shows as the mapping it guards. -/
def display : Value → String
  | .text s => s
  | .moment m => m.display
  | .foreign label => label
  | .mapping .readOnly entries => literal (.mapping .plain entries)
  | v => v.literal

end Intake.Value
