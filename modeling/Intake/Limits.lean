import Intake.Value.Text

/-!
How deep a decoder may descend and how many items a sequence may have. Any number that is not zero
or less is a limit; the undefined number passes and limits nothing.
-/
namespace Intake

inductive Aspect where
  | depth
  | items
  deriving DecidableEq, Repr, Inhabited

namespace Aspect

def argument : Aspect → String
  | .depth => "max_nesting_depth"
  | .items => "max_array_items"

def measure : Aspect → String
  | .depth => "Nesting depth"
  | .items => "Array item count"

def default : Aspect → Number
  | .depth => .whole 100
  | .items => .whole 100000

end Aspect

def Number.text (n : Number) : String := n.toValue.literal

structure Limits where
  depth : Number
  items : Number
  deriving DecidableEq, Repr, Inhabited

def groupArgument : String := "structure_limits"

/-- What takes named arguments: a structured group, the limits, or the preset for a configuration
with limits. -/
inductive Signature where
  | group
  | limits
  | preset
  deriving DecidableEq, Repr, Inhabited

namespace Signature

def text : Signature → String
  | .group => "StructureLimits.__init__()"
  | .limits => "ParseLimits.__init__()"
  | .preset => "ParseConfig.limited()"

/-- The parameter that is bound before any argument is, so that no argument may name it. -/
def boundParameter : Signature → String
  | .group => "self"
  | .limits => "self"
  | .preset => "cls"

end Signature

inductive LimitsFault where
  | unknownArguments (names : List String)
  /-- An argument named as a parameter that is already bound. -/
  | boundParameter (signature : Signature)
  | unexpectedArgument (signature : Signature) (name : String)
  /-- A value that holds no limits where a group belongs. -/
  | notAGroup (value : Value)
  | notComparable (value : Value)
  | notPositive (aspect : Aspect)

def incomparableText (operator left right : String) : String :=
  "'" ++ operator ++ "' not supported between instances of '" ++ left ++ "' and '" ++ right ++ "'"

def LimitsFault.message : LimitsFault → String
  | .unknownArguments names => "Unknown limit arguments: " ++ ", ".intercalate names
  | .boundParameter signature =>
    signature.text ++ " got multiple values for argument '" ++ signature.boundParameter ++ "'"
  | .unexpectedArgument signature name =>
    signature.text ++ " got an unexpected keyword argument '" ++ name ++ "'"
  | .notAGroup value =>
    "'" ++ value.qualifiedTypeName ++ "' object has no attribute '" ++ Aspect.depth.argument ++ "'"
  | .notComparable value => incomparableText "<=" value.comparedTypeName "int"
  | .notPositive aspect => aspect.argument ++ " must be positive"

structure LimitsRequest where
  flat : List (String × Value)
  structured : Option (List (String × Value))
  deriving Inhabited

/-- What a flat argument gives for the group, unless it is null. -/
def LimitsRequest.flatGroup? (request : LimitsRequest) : Option Value :=
  (request.flat.lookup groupArgument).filter fun v => !v.isNull

/-- A sequence that gives a result gives one at each step. -/
theorem exists_of_bind_eq_ok {x : Except ε α} {f : α → Except ε β} {b : β}
    (given : (x >>= f) = .ok b) : ∃ a, x = .ok a ∧ f a = .ok b := by
  cases x with
  | error fault => cases given
  | ok a => exact ⟨a, rfl, given⟩

namespace Limits

def get (l : Limits) : Aspect → Number
  | .depth => l.depth
  | .items => l.items

def ofAspects (value : Aspect → Number) : Limits := ⟨value .depth, value .items⟩

def standard : Limits := ofAspects Aspect.default

def isArgument (name : String) : Bool :=
  name == Aspect.depth.argument || name == Aspect.items.argument

/-- A requested limit, checked: it must compare with zero, and must not be zero or less. -/
def checked (aspect : Aspect) (value : Value) : Except LimitsFault Number :=
  match value.toNumber? with
  | none => .error (.notComparable value)
  | some n => if n.quantity.le (.exactly 0) then .error (.notPositive aspect) else .ok n

def ofArguments (arguments : List (String × Value)) : Except LimitsFault Limits := do
  let value (aspect : Aspect) : Value :=
    (arguments.lookup aspect.argument).getD aspect.default.toValue
  let depth ← checked .depth (value .depth)
  let items ← checked .items (value .items)
  return ⟨depth, items⟩

/-- Refuses names that a structured group does not take. -/
def checkGroup (arguments : List (String × Value)) : Except LimitsFault Unit :=
  match arguments.find? fun a => !isArgument a.1 with
  | none => .ok ()
  | some (name, _) =>
    if name = Signature.group.boundParameter then .error (.boundParameter .group)
    else .error (.unexpectedArgument .group name)

def checkBound (signature : Signature) (arguments : List (String × Value)) :
    Except LimitsFault Unit :=
  if (arguments.lookup signature.boundParameter).isSome then .error (.boundParameter signature)
  else .ok ()

/-- Limits as requested. Names are checked before values, those of a structured group first. -/
def ofRequest (request : LimitsRequest) : Except LimitsFault Limits := do
  checkGroup (request.structured.getD [])
  checkBound .limits request.flat
  let unknown := (request.flat.map Prod.fst).filter fun name =>
    !isArgument name && name != groupArgument
  if !unknown.isEmpty then
    throw (.unknownArguments (unknown.mergeSort fun a b => a ≤ b))
  match request.structured, request.flatGroup? with
  | some arguments, _ => ofArguments arguments
  | none, some v => throw (.notAGroup v)
  | none, none => ofArguments request.flat

/-- Equality by worth. Values have no identity here, so limits that share one undefined number are
not the same; `Limits.Held.same` compares the objects first. -/
def same (a b : Limits) : Bool :=
  a.depth.quantity.same b.depth.quantity && a.items.quantity.same b.items.quantity

/-- The residues of both limits; equal limits have equal residues. -/
def residues (l : Limits) : Option (Int × Int) := do
  let depth ← l.depth.quantity.residue
  let items ← l.items.quantity.residue
  return (depth, items)

def isExceeded (l : Limits) (aspect : Aspect) (n : Number) : Bool :=
  (l.get aspect).quantity.lt n.quantity

def complaint (l : Limits) (aspect : Aspect) (n : Number) : String :=
  aspect.measure ++ " " ++ n.text ++ " exceeds limit " ++ (l.get aspect).text

def literal (l : Limits) : String :=
  "ParseLimits(structure_limits=StructureLimits(" ++ Aspect.depth.argument ++ "=" ++ l.depth.text ++
    ", " ++ Aspect.items.argument ++ "=" ++ l.items.text ++ "))"

end Limits

end Intake
