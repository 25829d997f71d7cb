import Intake.Decoder.Basic

/-!
Names of decoders. A combinator is named after its parts, so a name shows how a decoder is built.
-/
namespace Intake.Decoder

def anonymous : String := "parser"

/-- A name as it stands inside another. -/
def inner (name : String) : String := if name.isEmpty then anonymous else name

def around (combinator argument : String) : String := combinator ++ "(" ++ argument ++ ")"

mutual

def name : Decoder → String
  | .primitive p => p.name
  | .constant v => around "constant" v.literal
  | .object fields =>
    around "object"
      (Value.openBrace ++ ", ".intercalate (fieldNames fields) ++ Value.closeBrace)
  | .array item => around "array" (inner item.name)
  | .optional of => around "optional" (inner of.name)
  | .nullable of => around "nullable" (inner of.name)
  | .withDefault of _ => around "with_default" (inner of.name)
  | .map of _ => around "map" (inner of.name)
  | .lift f => around "lift" (f.label.getD "function")
  | .compose first rest => " >> ".intercalate (inner first.name :: innerNames rest)
  | .preCondition of _ => around "pre_condition" (inner of.name)
  | .postCondition of _ => around "post_condition" (inner of.name)
  | .fail _ => "fail"
  | .failWith _ => "fail_with"
  | .alt options => around "alt" (", ".intercalate (innerNames options))
  | .named label _ => label
  | .inspect => "ctx_info"
  | .ref target => target
  | .push _ _ => "push"
  | .forbid _ => "security"
  | .broken _ => anonymous

def innerNames : List Decoder → List String
  | [] => []
  | d :: rest => inner d.name :: innerNames rest

def fieldNames : List (Value × Decoder) → List String
  | [] => []
  | (key, d) :: rest => (key.display ++ ": " ++ inner d.name) :: fieldNames rest

end

def literal (d : Decoder) : String := "<Parser " ++ d.name ++ ">"

end Intake.Decoder
