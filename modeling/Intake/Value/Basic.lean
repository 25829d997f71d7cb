import Intake.Moment.Basic
import Intake.Number.Binary64
import Intake.Number.Quantity

/-!
Untyped data: what a decoder reads and what it produces. `absent` marks a field that was not
supplied at all, and is not `null`, which stands for a null that was.
-/
namespace Intake

/-- How a mapping is kept. All three are read alike and differ in notation. -/
inductive MappingKind where
  | plain
  | ordered
  | readOnly
  deriving DecidableEq, Repr, Inhabited

inductive Value where
  | null
  | absent
  | bool (b : Bool)
  | int (n : Int)
  | float (x : Binary64)
  | text (s : String)
  | bytes (content : List UInt8)
  | list (items : List Value)
  | tuple (items : List Value)
  | mapping (kind : MappingKind) (entries : List (Value × Value))
  | moment (m : Moment)
  /-- An object known only by its text. -/
  | foreign (label : String)
  deriving Repr, Inhabited

namespace Binary64

def quantity (x : Binary64) : Quantity :=
  match x, x.toRat? with
  | .infinite negative, _ => if negative then .negativeInfinity else .infinity
  | _, some q => .exactly q
  | _, none => .undefined

end Binary64

inductive Number where
  | flag (b : Bool)
  | whole (n : Int)
  | real (x : Binary64)
  deriving DecidableEq, Repr, Inhabited

namespace Number

def quantity : Number → Quantity
  | .flag b => .exactly (if b then 1 else 0)
  | .whole n => .exactly n
  | .real x => x.quantity

def toValue : Number → Value
  | .flag b => .bool b
  | .whole n => .int n
  | .real x => .float x

end Number

namespace Value

def toNumber? : Value → Option Number
  | .bool b => some (.flag b)
  | .int n => some (.whole n)
  | .float x => some (.real x)
  | _ => none

def isAbsent : Value → Bool
  | .absent => true
  | _ => false

def isNull : Value → Bool
  | .null => true
  | _ => false

def isPresent (v : Value) : Bool := !v.isAbsent && !v.isNull

def items? : Value → Option (List Value)
  | .list items => some items
  | .tuple items => some items
  | _ => none

def entries? : Value → Option (List (Value × Value))
  | .mapping _ entries => some entries
  | _ => none

def text? : Value → Option String
  | .text s => some s
  | _ => none

def size? : Value → Option Nat
  | .text s => some s.length
  | .bytes content => some content.length
  | .list items => some items.length
  | .tuple items => some items.length
  | .mapping _ entries => some entries.length
  | _ => none

def isTruthy (v : Value) : Bool :=
  match v.size?, v.toNumber? with
  | some n, _ => n != 0
  | _, some n => n.quantity != .exactly 0
  | none, none => v.isPresent

/-- The parts that iteration over a value gives: characters, bytes, elements or keys. -/
def parts? : Value → Option (List Value)
  | .text s => some (s.toList.map fun c => .text c.toString)
  | .bytes content => some (content.map fun b => .int b.toNat)
  | .list items => some items
  | .tuple items => some items
  | .mapping _ entries => some (entries.map Prod.fst)
  | _ => none

def typeName : Value → String
  | .null => "NoneType"
  | .absent => "Absent"
  | .bool _ => "bool"
  | .int _ => "int"
  | .float _ => "float"
  | .text _ => "str"
  | .bytes _ => "bytes"
  | .list _ => "list"
  | .tuple _ => "tuple"
  | .mapping .plain _ => "dict"
  | .mapping .ordered _ => "OrderedDict"
  | .mapping .readOnly _ => "mappingproxy"
  | .moment _ => "datetime"
  | .foreign _ => "Opaque"

/-- The name of a value's type as complaints give it: with its module, for two of them. -/
def qualifiedTypeName : Value → String
  | .mapping .ordered _ => "collections.OrderedDict"
  | .moment _ => "datetime.datetime"
  | v => v.typeName

/-- The name under which a value is compared: a read-only mapping hands on to what it guards. -/
def comparedTypeName : Value → String
  | .mapping .readOnly _ => "dict"
  | v => v.qualifiedTypeName

end Value

end Intake
