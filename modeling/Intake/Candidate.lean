import Intake.Decoder.Meaning
import Intake.Value.Equality

/-!
Building decoders out of whatever stands where one belongs. Bare functions are wrapped under their
own names when a combinator takes them; values are refused.
-/
namespace Intake

inductive Candidate where
  | decoder (d : Decoder)
  /-- A function that behaves like a decoder, with its name if it has one. -/
  | function (label : Option String) (body : Decoder)
  | value (v : Value)
  deriving Inhabited

abbrev Build (α : Type) := Except BuildFault α

namespace Candidate

/-- The name of a function without a label, or of a decoder in the place of a function. -/
def label : Candidate → String
  | .function (some label) _ => label
  | _ => Decoder.anonymous

def toDecoder : Candidate → Build Decoder
  | .decoder d => .ok d
  | .function label body => .ok (.named (label.getD Decoder.anonymous) body)
  | .value v => .error (if v.isWritable then .notADecoder v else .unwritableInteger)

def isDecoder : Candidate → Bool
  | .decoder _ => true
  | _ => false

/-- Wraps a candidate under a name without a look at what it is. A missing or empty name is that of
the function wrapped. -/
def wrap (c : Candidate) (name : Option String) : Decoder :=
  let chosen := match name with
    | some name => if name.isEmpty then c.label else name
    | none => c.label
  match c with
  | .decoder d => .named chosen d
  | .function _ body => .named chosen body
  | .value v => .named chosen (.broken v)

def apply1 (combinator : Decoder → Decoder) (c : Candidate) : Build Candidate := do
  return .decoder (combinator (← c.toDecoder))

def alt (options : List Candidate) : Build Candidate := do
  return .decoder (.alt (← options.mapM toDecoder))

def compose : List Candidate → Build Candidate
  | [] => .error .emptyComposition
  | first :: rest => do
    let first ← first.toDecoder
    let rest ← rest.mapM toDecoder
    return .decoder (.compose first rest)

def toField (field : Value × Candidate) : Build (Value × Decoder) := do
  return (field.1, ← field.2.toDecoder)

/-- A mapping with declared fields, whose names can be written. A field declared twice keeps its
first place and takes its last candidate. -/
def object (fields : List (Value × Candidate)) : Build Candidate := do
  let built ← (Value.dedupe fields).mapM toField
  if built.all fun field => field.1.isWritable then return .decoder (.object built)
  else throw .unwritableInteger

theorem keys_of_mapM_toField {fields : List (Value × Candidate)} {built : List (Value × Decoder)}
    (accepted : fields.mapM toField = .ok built) :
    built.map Prod.fst = fields.map Prod.fst := by
  induction fields generalizing built with
  | nil =>
    cases accepted
    rfl
  | cons field rest ih =>
    rw [List.mapM_cons] at accepted
    obtain ⟨first, head, accepted⟩ := exists_of_bind_eq_ok accepted
    obtain ⟨others, tail, accepted⟩ := exists_of_bind_eq_ok accepted
    obtain ⟨d, _, head⟩ := exists_of_bind_eq_ok head
    cases head
    cases accepted
    exact congrArg (field.1 :: ·) (ih tail)

/-- The fields of a mapping that is built have different names, all of which can be written. -/
theorem fields_of_object {fields : List (Value × Candidate)} {c : Candidate}
    (accepted : object fields = .ok c) : ∃ declared, c = .decoder (.object declared) ∧
      Value.Distinct declared ∧ ∀ field ∈ declared, field.1.isWritable = true := by
  obtain ⟨declared, built, accepted⟩ := exists_of_bind_eq_ok accepted
  split at accepted
  next writable =>
    cases accepted
    refine ⟨declared, rfl, ?_, List.all_eq_true.mp writable⟩
    unfold Value.Distinct
    rw [keys_of_mapM_toField built]
    exact Value.distinct_dedupe fields
  next => cases accepted

def run (c : Candidate) (defs : Definitions) (fuel : Nat) (config : Config) (v : Value) :
    Run Value :=
  match c.toDecoder with
  | .ok d => d.run defs fuel config v
  | .error f => Run.raise (.unbuilt f)

end Candidate

end Intake
