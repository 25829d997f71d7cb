import Intake.Config
import Intake.Value.Equality

/-!
Where a decoder stands: a chain of links that only grows by `push`. The depth is kept beside the
chain, and reading stops at the first link whose depth is not positive.
-/
namespace Intake

structure Link where
  fragment : Value
  depth : Int
  deriving Inhabited

namespace Link

def same (a b : Link) : Bool := a.fragment.same b.fragment && a.depth == b.depth

end Link

structure Context where
  head : Link
  ancestors : List Link
  config : Config
  deriving Inhabited

namespace Context

def root (config : Config) : Context := ⟨⟨.null, 0⟩, [], config⟩

def depth (c : Context) : Int := c.head.depth

def fragment (c : Context) : Value := c.head.fragment

def links (c : Context) : List Link := c.head :: c.ancestors

/-- The context one descent further in, by a fragment that can be written. -/
def push (c : Context) (fragment : Value) : Context :=
  ⟨⟨fragment, c.depth + 1⟩, c.links, c.config⟩

/-- The fragments that lead here, innermost first. -/
def fragments (c : Context) : List Value :=
  (c.links.takeWhile fun link => 0 < link.depth).map Link.fragment

@[simp] theorem depth_push (c : Context) (fragment : Value) :
    (c.push fragment).depth = c.depth + 1 := rfl

@[simp] theorem config_push (c : Context) (fragment : Value) :
    (c.push fragment).config = c.config := rfl

@[simp] theorem fragments_root (config : Config) : (root config).fragments = [] := rfl

theorem fragments_push (c : Context) (fragment : Value) (h : 0 ≤ c.depth) :
    (c.push fragment).fragments = fragment :: c.fragments := by
  have deeper : 0 < c.depth + 1 := by omega
  simp [fragments, push, links, deeper]

/-- The context further in by several fragments, innermost first. -/
def pushAll (c : Context) : List Value → Context
  | [] => c
  | fragment :: rest => (c.pushAll rest).push fragment

@[simp] theorem config_pushAll (c : Context) (path : List Value) :
    (c.pushAll path).config = c.config := by
  induction path with
  | nil => rfl
  | cons fragment rest ih => exact ih

@[simp] theorem depth_pushAll (c : Context) (path : List Value) :
    (c.pushAll path).depth = c.depth + path.length := by
  induction path with
  | nil => simp [pushAll]
  | cons fragment rest ih =>
    rw [pushAll, depth_push, ih, List.length_cons]
    omega

theorem fragments_pushAll (c : Context) (path : List Value) (h : 0 ≤ c.depth) :
    (c.pushAll path).fragments = path ++ c.fragments := by
  induction path with
  | nil => rfl
  | cons fragment rest ih =>
    have counted : 0 ≤ (c.pushAll rest).depth := by
      rw [depth_pushAll]
      omega
    rw [pushAll, fragments_push _ _ counted, ih, List.cons_append]

def literal (c : Context) : String :=
  "ParsingCtx(fragment=" ++ c.fragment.literal ++ ", depth=" ++ toString c.depth ++ ")"

end Context

end Intake
