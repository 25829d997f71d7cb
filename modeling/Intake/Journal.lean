import Intake.Decoder.Basic

/-!
What happens during a run, in order. A caller sees the `records` and the `calls`; the other events
say where decoders ran, descended and counted, and where a fault arose.
-/
namespace Intake

inductive Level where
  | debug
  | warning
  deriving DecidableEq, Repr, Inhabited

def Level.name : Level → String
  | .debug => "DEBUG"
  | .warning => "WARNING"

structure Record where
  level : Level
  logger : Logger
  message : String
  deriving DecidableEq, Repr

inductive Event where
  | entered (decoder : Decoder) (ctx : Context) (input : Value)
  /-- A field or element is descended into; the context is the inner one. -/
  | descended (ctx : Context)
  | counted (size : Nat) (ctx : Context)
  | invoked (argument : Value)
  | called (call : Call)
  | logged (record : Record)
  | raised (fault : Fault)

abbrev Journal := List Event

namespace Journal

def records (j : Journal) : List Record :=
  j.filterMap fun
    | .logged record => some record
    | _ => none

def calls (j : Journal) : List Call :=
  j.filterMap fun
    | .called call => some call
    | _ => none

@[simp] theorem records_append (a b : Journal) : records (a ++ b) = records a ++ records b :=
  List.filterMap_append

@[simp] theorem calls_append (a b : Journal) : calls (a ++ b) = calls a ++ calls b :=
  List.filterMap_append

@[simp] theorem records_entered (d : Decoder) (c : Context) (v : Value) (j : Journal) :
    records (.entered d c v :: j) = records j := rfl

@[simp] theorem calls_entered (d : Decoder) (c : Context) (v : Value) (j : Journal) :
    calls (.entered d c v :: j) = calls j := rfl

@[simp] theorem records_logged (record : Record) : records [.logged record] = [record] := rfl

@[simp] theorem calls_logged (record : Record) : calls [.logged record] = [] := rfl

@[simp] theorem records_flatMap (f : α → Journal) (l : List α) :
    records (l.flatMap f) = l.flatMap fun a => records (f a) := List.filterMap_flatMap

@[simp] theorem calls_flatMap (f : α → Journal) (l : List α) :
    calls (l.flatMap f) = l.flatMap fun a => calls (f a) := List.filterMap_flatMap

end Journal

end Intake
