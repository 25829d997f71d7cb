import Intake.Context

/-!
Why a run fails. Faults that the library locates carry a grade, a base message and a path. Each
cause is a constructor, and `Fault.message` is the only place where it is worded.
-/
namespace Intake

/-- The grades of located faults. Only a mismatch lets an alternative take over. -/
inductive Grade where
  | general
  | mismatch
  | limit
  deriving DecidableEq, Repr, Inhabited

inductive Complaint where
  | badValue
  | badType
  | divisionByZero
  | badAttribute
  | frozenField
  | missingKey
  deriving DecidableEq, Repr, Inhabited

inductive Category where
  | located (grade : Grade)
  | other (complaint : Complaint)
  deriving DecidableEq, Repr

inductive Expectation where
  | integer
  | text
  | sized
  | mapping
  deriving DecidableEq, Repr

def Expectation.noun : Expectation → String
  | .integer => "int"
  | .text => "str"
  | .sized => "sized"
  | .mapping => "mapping"

def Fault.overlongText (detail : String) : String :=
  "Exceeds the limit (" ++ toString Text.longestNumeral ++
    " digits) for integer string conversion" ++ detail ++
    "; use sys.set_int_max_str_digits() to increase the limit"

inductive BuildFault where
  | notADecoder (value : Value)
  | emptyComposition
  /-- An integer with too many digits to be written, in a field name or in what is refused. -/
  | unwritableInteger
  deriving Inhabited

namespace BuildFault

def message : BuildFault → String
  | .notADecoder v => "Expected a parser, got " ++ v.literal
  | .emptyComposition => "compose() missing 1 required positional argument: 'first'"
  | .unwritableInteger => Fault.overlongText ""

def complaint : BuildFault → Complaint
  | .unwritableInteger => .badValue
  | _ => .badType

end BuildFault

inductive Fault where
  | located (grade : Grade) (base : String) (path : List Value)
  /-- A message that is no text, to which no location can be appended. -/
  | unlocatable (message : Value)
  /-- A path that has no parts. -/
  | pathless (path : Value)
  | complained (complaint : Complaint) (message : String)
  | expected (what : Expectation)
  | notAnInteger (text : String)
  /-- An integer with too many digits to be written. -/
  | unwritableInteger
  /-- A text with too many digits to be read as an integer. -/
  | unreadableInteger (digits : Nat)
  | notRunnable (value : Value)
  /-- A value measured against a limit with which it has no order. -/
  | notMeasurable (value : Value) (limit : Number)
  | undefinedReference (name : String)
  | unbuilt (fault : BuildFault)
  deriving Inhabited

namespace Fault

/-- A message followed by each fragment of a path, innermost first. -/
def locatedText (base : String) (path : List Value) : String :=
  path.foldl (fun written fragment => written ++ " in " ++ fragment.display) base

theorem locatedText_append (base : String) (inner outer : List Value) :
    locatedText base (inner ++ outer) = locatedText (locatedText base inner) outer :=
  List.foldl_append

def unlocatableText : Value → String
  | .list _ => "can only concatenate list (not \"str\") to list"
  | .tuple _ => "can only concatenate tuple (not \"str\") to tuple"
  | .bytes _ => "can't concat str to bytes"
  | v => "unsupported operand type(s) for +: '" ++ v.qualifiedTypeName ++ "' and 'str'"

def message : Fault → String
  | .located _ base path => locatedText base path
  | .unlocatable v => unlocatableText v
  | .pathless v => "'" ++ v.qualifiedTypeName ++ "' object is not iterable"
  | .complained _ text => text
  | .expected what => "expected " ++ what.noun
  | .notAnInteger text => "not an integer: " ++ text
  | .unwritableInteger => overlongText ""
  | .unreadableInteger digits => overlongText (": value has " ++ toString digits ++ " digits")
  | .notRunnable v => "'" ++ v.qualifiedTypeName ++ "' object is not callable"
  | .notMeasurable v limit =>
    incomparableText ">" v.comparedTypeName limit.toValue.comparedTypeName
  | .undefinedReference name => Text.quoted name
  | .unbuilt fault => fault.message

def category : Fault → Category
  | .located grade _ _ => .located grade
  | .unlocatable _ => .other .badType
  | .pathless _ => .other .badType
  | .complained complaint _ => .other complaint
  | .expected _ => .other .badType
  | .notAnInteger _ => .other .badValue
  | .unwritableInteger => .other .badValue
  | .unreadableInteger _ => .other .badValue
  | .notRunnable _ => .other .badType
  | .notMeasurable _ _ => .other .badType
  | .undefinedReference _ => .other .missingKey
  | .unbuilt fault => .other fault.complaint

def isLocated : Fault → Bool
  | .located _ _ _ => true
  | _ => false

def isMismatch : Fault → Bool
  | .located .mismatch _ _ => true
  | _ => false

/-- A fault of a grade with a message and a path, all of which can be written; a message that is no
text is itself at fault. -/
def locate (grade : Grade) (message : Value) (path : List Value) : Fault :=
  match message with
  | .text base => .located grade base path
  | v => .unlocatable v

def mismatch (message : Value) (ctx : Context) : Fault := locate .mismatch message ctx.fragments

/-- The mismatch of a value refused with a message that shows it, provided it can be shown. -/
def refused (v : Value) (message : String) (ctx : Context) : Fault :=
  if v.isWritable then mismatch (.text message) ctx else .unwritableInteger

/-- A fault whose path is taken from the parts of a value, provided all of them can be written;
none or null is the empty path. -/
def ofParts (grade : Grade) (message : Value) (path : Option Value) : Fault :=
  match path with
  | none | some .null => locate grade message []
  | some v =>
    match v.parts? with
    | none => .pathless v
    | some parts =>
      if parts.all Value.isWritable then locate grade message parts else .unwritableInteger

end Fault

end Intake
