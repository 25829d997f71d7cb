import Intake.Callback
import Intake.Primitive

/-!
Decoders as data. A decoder refers to others by name through `ref`, which is how recursive decoders
are written.
-/
namespace Intake

inductive Default where
  | value (v : Value)
  /-- Called anew each time, with null. -/
  | supplier (f : Callback)

/-- What a decoder brings into texts, a constant, a field name or a fragment, can be written. -/
inductive Decoder where
  | primitive (p : Primitive)
  | constant (value : Value)
  /-- A mapping with declared fields, of different names (`Candidate.fields_of_object`). -/
  | object (fields : List (Value × Decoder))
  | array (item : Decoder)
  | optional (of : Decoder)
  | nullable (of : Decoder)
  | withDefault (of : Decoder) (default : Default)
  | map (of : Decoder) (f : Callback)
  | lift (f : Callback)
  | compose (first : Decoder) (rest : List Decoder)
  | preCondition (of : Decoder) (predicate : Callback)
  | postCondition (of : Decoder) (predicate : Callback)
  | fail (message : Value)
  | failWith (f : Callback)
  | alt (options : List Decoder)
  | named (label : String) (of : Decoder)
  | inspect
  | ref (name : String)
  /-- Runs under a further fragment. -/
  | push (fragment : Value) (of : Decoder)
  /-- Always fails as a limit does. -/
  | forbid (message : Value)
  /-- A value in the place of a decoder, at fault whenever it is to run. -/
  | broken (value : Value)

instance : Inhabited Decoder := ⟨.primitive .identity⟩

end Intake
