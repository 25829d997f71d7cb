import Intake.Limits

/-!
Options of a run: the limits to enforce, if any, and a logger to use in place of the library's own.
-/
namespace Intake

structure Logger where
  name : String
  deriving DecidableEq, Repr, Inhabited

namespace Logger

/-- The logger of a name; the empty name is the root's. -/
def named (name : String) : Logger := ⟨if name.isEmpty then "root" else name⟩

def literal (l : Logger) : String := "<Logger " ++ l.name ++ " (DEBUG)>"

end Logger

inductive Source where
  | engine
  | alternatives
  | structures
  | limits
  deriving DecidableEq, Repr, Inhabited

def Source.loggerName : Source → String
  | .engine => "dataparser.core.engine"
  | .alternatives => "dataparser.core.combinators"
  | .structures => "dataparser.core.structures"
  | .limits => "dataparser.security.limits"

structure Config where
  limits : Option Limits
  logger : Option Logger
  deriving Inhabited

namespace Config

def default : Config := ⟨none, none⟩

/-- Limits as requested, and the library's own loggers. -/
def limited (request : LimitsRequest) : Except LimitsFault Config := do
  Limits.checkBound .preset request.flat
  return ⟨some (← Limits.ofRequest request), none⟩

def loggerNamed (c : Config) (name : String) : Logger := c.logger.getD (.named name)

def loggerFor (c : Config) (source : Source) : Logger := c.loggerNamed source.loggerName

/-- Equal configurations have equal limits, or none; loggers do not matter. -/
def same (a b : Config) : Bool :=
  match a.limits, b.limits with
  | none, none => true
  | some a, some b => a.same b
  | _, _ => false

def literal (c : Config) : String :=
  "ParseConfig(limits=" ++ (c.limits.map Limits.literal).getD "None" ++
    ", logger=" ++ (c.logger.map Logger.literal).getD "None" ++ ")"

end Config

end Intake
