import Intake.Context

/-!
A collection of contexts that only grows. It remembers which of them share ancestors, since a
context is the same as itself even where its fragments are the same as nothing.
-/
namespace Intake

structure Entry where
  context : Context
  /-- The numbers of the contexts whose links make up the chain, innermost first. -/
  lineage : List Nat
  /-- The number of the context for which the configuration was made. -/
  configOrigin : Nat
  deriving Inhabited

structure Session where
  entries : List Entry
  deriving Inhabited

namespace Session

def empty : Session := ⟨[]⟩

def size (s : Session) : Nat := s.entries.length

def get? (s : Session) (i : Nat) : Option Entry := s.entries[i]?

def add (s : Session) (e : Entry) : Session := ⟨s.entries ++ [e]⟩

def openRoot (s : Session) (config : Config) : Session :=
  s.add ⟨Context.root config, [s.size], s.size⟩

/-- Adds a context with the given link, in front of an earlier chain if there is one, and a
configuration of its own. -/
def openLink (s : Session) (link : Link) (parent : Option Entry) : Session :=
  let ancestors := (parent.map fun e => e.context.links).getD []
  let lineage := (parent.map fun e => e.lineage).getD []
  s.add ⟨⟨link, ancestors, Config.default⟩, s.size :: lineage, s.size⟩

def push (s : Session) (e : Entry) (fragment : Value) : Session :=
  s.add ⟨e.context.push fragment, s.size :: e.lineage, e.configOrigin⟩

end Session

namespace Entry

def numberedLinks (e : Entry) : List (Nat × Link) := e.lineage.zip e.context.links

/-- Chains are the same when they run into one another, or link by link. -/
def sameChain : List (Nat × Link) → List (Nat × Link) → Bool
  | [], [] => true
  | (i, a) :: rest, (j, b) :: rest' => i == j || (a.same b && sameChain rest rest')
  | _, _ => false

def same (a b : Entry) : Bool := sameChain a.numberedLinks b.numberedLinks

/-- Both have the configuration that was made for one of them or for a common ancestor. -/
def sharesConfig (a b : Entry) : Bool := a.configOrigin == b.configOrigin

end Entry

end Intake
