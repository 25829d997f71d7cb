import Intake.Run

/-!
An action takes a value at a context and runs. Contexts are passed down and never back up, so what
one part does cannot change where another stands.
-/
namespace Intake

abbrev Action := Value → Context → Run Value

/-- Raises a fault about a limit. One that is located is announced to a logger. -/
def Limits.reject (logger : Logger) (f : Fault) : Run Unit := do
  if f.isLocated then
    Run.log .warning logger ("Structural limit exceeded: " ++ f.message)
  Run.raise f

/-- Refuses a number over its limit, provided both can be written; the path is for the location. -/
def Limits.check (l : Limits) (logger : Logger) (aspect : Aspect) (n : Number)
    (path : Option Value) : Run Unit :=
  if l.isExceeded aspect n then
    if n.toValue.isWritable && (l.get aspect).toValue.isWritable then
      Limits.reject logger (.ofParts .limit (.text (l.complaint aspect n)) path)
    else Run.raise .unwritableInteger
  else return ()

def Limits.checkValue (l : Limits) (logger : Logger) (aspect : Aspect) (v : Value)
    (path : Option Value) : Run Unit :=
  match v.toNumber? with
  | none => Run.raise (.notMeasurable v (l.get aspect))
  | some n => l.check logger aspect n path

namespace Context

/-- Refuses a depth or a count over the limit in force, if there is one. Both are of what is held in
memory, so both can be written. -/
def check (c : Context) (aspect : Aspect) (n : Int) : Run Unit :=
  match c.config.limits with
  | none => return ()
  | some l =>
    if l.isExceeded aspect (.whole n) then
      Limits.reject (c.config.loggerFor .structures)
        (.located .limit (l.complaint aspect (.whole n)) c.fragments)
    else return ()

/-- Notes that a field or element is reached, provided it is not too deep. -/
def arrive (c : Context) : Run Unit := do
  Run.emit (.descended c)
  c.check .depth c.depth

def descend (c : Context) (fragment : String) : Run Context := do
  let child := c.push (.text fragment)
  child.arrive
  return child

theorem descend_bind (c : Context) (fragment : String) (f : Context → Run α) :
    (c.descend fragment).bind f =
      (c.push (.text fragment)).arrive.bind fun _ => f (c.push (.text fragment)) := by
  change (((c.push (.text fragment)).arrive.bind fun _ => Run.pure _).bind f) = _
  rw [Run.bind_assoc]
  simp only [Run.pure_bind]

def count (c : Context) (size : Nat) : Run Unit := do
  Run.emit (.counted size c)
  c.check .items size

end Context

namespace Action

def fail (message : Value) : Action := fun _ ctx => Run.raise (.mismatch message ctx)

def entering (d : Decoder) (act : Action) : Action := fun v ctx => do
  Run.emit (.entered d ctx v)
  act v ctx

def primitive (p : Primitive) : Action := fun v ctx =>
  match p.accept v with
  | .ok w => Run.pure w
  | .error message => Run.raise (.refused v message ctx)

def constant (w : Value) : Action := fun _ _ => Run.pure w

/-- The names of an object that is built can be written (`Candidate.fields_of_object`). -/
def fieldFragment (name : Value) : String := "object property " ++ name.display

def itemFragment (index : Nat) : String := "array at index " ++ toString index

def field (entries : List (Value × Value)) (ctx : Context) (f : Value × Action) :
    Run (Value × Value) := do
  let child ← ctx.descend (fieldFragment f.1)
  let result ← f.2 (Value.lookup f.1 entries) child
  return (f.1, result)

theorem field_eq (entries : List (Value × Value)) (c : Context) (f : Value × Action) :
    field entries c f = (c.push (.text (fieldFragment f.1))).arrive.bind fun _ =>
      (f.2 (Value.lookup f.1 entries) (c.push (.text (fieldFragment f.1)))).bind fun result =>
        Run.pure (f.1, result) := c.descend_bind _ _

/-- A mapping of the declared fields, those with an absent result left out. -/
def object (fields : List (Value × Action)) : Action := fun v ctx =>
  match v.entries? with
  | none => Run.raise (.refused v (notAnObject v) ctx)
  | some entries => do
    let results ← Run.traverse (field entries ctx) fields
    return .mapping .plain (results.filter fun result => !result.2.isAbsent)

theorem object_of_none {fields : List (Value × Action)} {v : Value} {ctx : Context}
    (shape : v.entries? = none) :
    object fields v ctx = Run.raise (.refused v (notAnObject v) ctx) := by
  simp only [object, shape]

theorem object_of_some {fields : List (Value × Action)} {v : Value} {ctx : Context}
    {entries : List (Value × Value)} (shape : v.entries? = some entries) :
    object fields v ctx = (Run.traverse (field entries ctx) fields).bind fun results =>
      Run.pure (.mapping .plain (results.filter fun result => !result.2.isAbsent)) := by
  simp only [object, shape]
  rfl

def item (act : Action) (ctx : Context) (element : Value × Nat) : Run Value := do
  let child ← ctx.descend (itemFragment element.2)
  act element.1 child

theorem item_eq (act : Action) (c : Context) (element : Value × Nat) :
    item act c element = (c.push (.text (itemFragment element.2))).arrive.bind fun _ =>
      act element.1 (c.push (.text (itemFragment element.2))) := c.descend_bind _ _

def array (act : Action) : Action := fun v ctx =>
  match v.items? with
  | none => Run.raise (.refused v (notAnArray v) ctx)
  | some items => do
    ctx.count items.length
    let results ← Run.traverse (item act ctx) items.zipIdx
    return .list results

theorem array_of_none {act : Action} {v : Value} {ctx : Context} (shape : v.items? = none) :
    array act v ctx = Run.raise (.refused v (notAnArray v) ctx) := by
  simp only [array, shape]

theorem array_of_some {act : Action} {v : Value} {ctx : Context} {items : List Value}
    (shape : v.items? = some items) :
    array act v ctx = (ctx.count items.length).bind fun _ =>
      (Run.traverse (item act ctx) items.zipIdx).bind fun results => Run.pure (.list results) := by
  simp only [array, shape]
  rfl

def optional (act : Action) : Action := fun v ctx =>
  if v.isAbsent then Run.pure .absent else act v ctx

def nullable (act : Action) : Action := fun v ctx =>
  if v.isNull then Run.pure .null else act v ctx

def withDefault (act : Action) (default : Run Value) : Action := fun v ctx => do
  let result ← act v ctx
  if result.isPresent then return result else default

def map (act : Action) (f : Callback) : Action := fun v ctx => do
  let result ← act v ctx
  f.call result

def lift (f : Callback) : Action := fun v _ => f.call v

/-- Refuses a value of which a predicate gives a message rather than null. -/
def require (predicate : Callback) (v : Value) (ctx : Context) : Run Unit := do
  let message ← predicate.call v
  if message.isNull then return () else Run.raise (.mismatch message ctx)

def preCondition (act : Action) (predicate : Callback) : Action := fun v ctx => do
  require predicate v ctx
  act v ctx

def postCondition (act : Action) (predicate : Callback) : Action := fun v ctx => do
  let result ← act v ctx
  require predicate result ctx
  return result

def compose : List Action → Action
  | [], v, _ => Run.pure v
  | act :: rest, v, ctx => do
    let result ← act v ctx
    compose rest result ctx

def failWith (f : Callback) : Action := fun v ctx => do
  let message ← f.call v
  Run.raise (.mismatch message ctx)

def rejection (name : String) (f : Fault) : String :=
  "Alternative " ++ name ++ " rejected input: " ++ f.message

/-- The first alternative that does not end in a mismatch. When all do, the last mismatch is the
outcome. -/
def alternatives (last : Option Fault) : List (String × Action) → Action
  | [], _, ctx =>
    match last with
    | some fault => Run.settle fault
    | none => Run.raise (.mismatch (.text unexpectedData) ctx)
  | (name, act) :: rest, v, ctx =>
    (act v ctx).rescue fun fault => do
      Run.log .debug (ctx.config.loggerFor .alternatives) (rejection name fault)
      alternatives (some fault) rest v ctx

theorem alternatives_cons (last : Option Fault) (name : String) (act : Action)
    (rest : List (String × Action)) (v : Value) (ctx : Context) :
    alternatives last ((name, act) :: rest) v ctx = (act v ctx).rescue fun fault =>
      (Run.log .debug (ctx.config.loggerFor .alternatives) (rejection name fault)).bind fun _ =>
        alternatives (some fault) rest v ctx := rfl

def alt (options : List (String × Action)) : Action := alternatives none options

def inspect : Action := fun _ ctx =>
  let limits := match ctx.config.limits with
    | none => Value.null
    | some l => .list [l.depth.toValue, l.items.toValue]
  Run.pure (.list [.int ctx.depth, .list ctx.fragments, limits])

/-- Runs under a further fragment, without a check of the depth. -/
def push (fragment : Value) (act : Action) : Action := fun v ctx => act v (ctx.push fragment)

def forbid (message : Value) : Action := fun _ ctx =>
  Run.raise (.locate .limit message ctx.fragments)

def notRunnable (w : Value) : Action := fun _ _ => Run.raise (.notRunnable w)

end Action

end Intake
