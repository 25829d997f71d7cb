import Intake.Action
import Intake.Decoder.Name

/-!
What a decoder does. `action` follows its structure and takes the meaning of references as a
parameter; `Definitions.resolve` supplies it, one unit of fuel for each reference that is followed.
-/
namespace Intake

def Default.run : Default → Run Value
  | .value v => Run.pure v
  | .supplier f => f.call .null

namespace Decoder

mutual

/-- The action of a decoder, given that of the references in it. -/
def action (resolve : String → Action) : Decoder → Action
  | d@(.primitive p) => .entering d (.primitive p)
  | d@(.constant v) => .entering d (.constant v)
  | d@(.object fields) => .entering d (.object (fieldActions resolve fields))
  | d@(.array item) => .entering d (.array (item.action resolve))
  | d@(.optional of) => .entering d (.optional (of.action resolve))
  | d@(.nullable of) => .entering d (.nullable (of.action resolve))
  | d@(.withDefault of default) => .entering d (.withDefault (of.action resolve) default.run)
  | d@(.map of f) => .entering d (.map (of.action resolve) f)
  | d@(.lift f) => .entering d (.lift f)
  | d@(.compose first rest) =>
    .entering d (.compose (first.action resolve :: actions resolve rest))
  | d@(.preCondition of predicate) => .entering d (.preCondition (of.action resolve) predicate)
  | d@(.postCondition of predicate) => .entering d (.postCondition (of.action resolve) predicate)
  | d@(.fail message) => .entering d (.fail message)
  | d@(.failWith f) => .entering d (.failWith f)
  | d@(.alt options) => .entering d (.alt (namedActions resolve options))
  | d@(.named _ of) => .entering d (of.action resolve)
  | d@.inspect => .entering d .inspect
  | d@(.ref name) => .entering d (resolve name)
  | d@(.push fragment of) => .entering d (.push fragment (of.action resolve))
  | d@(.forbid message) => .entering d (.forbid message)
  | d@(.broken v) => .entering d (.notRunnable v)

def actions (resolve : String → Action) : List Decoder → List Action
  | [] => []
  | d :: rest => d.action resolve :: actions resolve rest

def namedActions (resolve : String → Action) : List Decoder → List (String × Action)
  | [] => []
  | d :: rest => (d.name, d.action resolve) :: namedActions resolve rest

def fieldActions (resolve : String → Action) : List (Value × Decoder) → List (Value × Action)
  | [] => []
  | (key, d) :: rest => (key, d.action resolve) :: fieldActions resolve rest

end

end Decoder

abbrev Definitions := List (String × Decoder)

namespace Definitions

/-- The meaning of a reference, following at most `fuel` references one inside another. -/
def resolve (defs : Definitions) : Nat → String → Action
  | 0, _ => fun _ _ => Run.exhausted
  | fuel + 1, name =>
    match defs.lookup name with
    | some d => d.action (resolve defs fuel)
    | none => fun _ _ => Run.raise (.undefinedReference name)

def ampleFuel : Nat := 4096

end Definitions

namespace Decoder

def runAt (d : Decoder) (defs : Definitions) (fuel : Nat) : Action := d.action (defs.resolve fuel)

/-- Runs a decoder on a value from an empty context, and logs the failure if the fault is a located
one. -/
def run (d : Decoder) (defs : Definitions) (fuel : Nat) (config : Config) (v : Value) :
    Run Value :=
  (d.runAt defs fuel v (Context.root config)).announced (config.loggerFor .engine)

end Decoder

end Intake
