import Intake.Decoder.Meaning

/-! Decoders by their immediate parts. `body` is the meaning of one decoder in terms of those
of its parts, so an argument about all decoders is one case analysis. -/
namespace Intake.Decoder

def parts : Decoder → List Decoder
  | .object fields => fields.map Prod.snd
  | .compose first rest => first :: rest
  | .alt options => options
  | .array of | .optional of | .nullable of | .withDefault of _ | .map of _ |
    .preCondition of _ | .postCondition of _ | .named _ of | .push _ of => [of]
  | _ => []

/-- The callbacks that a decoder calls itself. -/
def callbacks : Decoder → List Callback
  | .withDefault _ (.supplier f) | .map _ f | .lift f | .preCondition _ f |
    .postCondition _ f | .failWith f => [f]
  | _ => []

theorem sizeOf_lt_of_mem_parts {d e : Decoder} (member : e ∈ d.parts) :
    sizeOf e < sizeOf d := by
  cases d <;> simp only [parts, List.mem_singleton, List.not_mem_nil] at member
  case object fields =>
    obtain ⟨field, inside, rfl⟩ := List.mem_map.mp member
    have smaller := List.sizeOf_lt_of_mem inside
    obtain ⟨key, d⟩ := field
    simp only [Prod.mk.sizeOf_spec, object.sizeOf_spec] at smaller ⊢
    omega
  case compose first rest =>
    rcases List.mem_cons.mp member with rfl | inside
    · simp only [compose.sizeOf_spec]; omega
    · have smaller := List.sizeOf_lt_of_mem inside
      simp only [compose.sizeOf_spec]; omega
  case alt options =>
    have smaller := List.sizeOf_lt_of_mem member
    simp only [alt.sizeOf_spec]; omega
  all_goals subst member; simp +arith

/-- The condition holds of a decoder and of all decoders inside it. -/
inductive Everywhere (condition : Decoder → Prop) : Decoder → Prop where
  | node {d : Decoder} (here : condition d)
      (parts : ∀ e ∈ d.parts, Everywhere condition e) : Everywhere condition d

/-- A condition that holds of all decoders holds everywhere, by recursion on size. -/
theorem everywhere_of_forall {condition : Decoder → Prop} (all : ∀ d, condition d)
    (d : Decoder) : d.Everywhere condition :=
  .node (all d) fun e _ => everywhere_of_forall all e
termination_by sizeOf d
decreasing_by exact sizeOf_lt_of_mem_parts ‹_›

theorem everywhere_true (d : Decoder) : d.Everywhere fun _ => True :=
  everywhere_of_forall (fun _ => trivial) d

theorem Everywhere.imp {condition wanted : Decoder → Prop} (imp : ∀ d, condition d → wanted d)
    {d : Decoder} (everywhere : d.Everywhere condition) : d.Everywhere wanted := by
  induction everywhere with
  | node here _ ih => exact .node (imp _ here) ih

mutual

def every (test : Decoder → Bool) : Decoder → Bool
  | d@(.object fields) => test d && everyField test fields
  | d@(.compose first rest) => test d && (first.every test && everyOf test rest)
  | d@(.alt options) => test d && everyOf test options
  | d@(.array of) | d@(.optional of) | d@(.nullable of) | d@(.withDefault of _) | d@(.map of _) |
    d@(.preCondition of _) | d@(.postCondition of _) | d@(.named _ of) | d@(.push _ of) =>
    test d && of.every test
  | d => test d

def everyOf (test : Decoder → Bool) : List Decoder → Bool
  | [] => true
  | d :: rest => d.every test && everyOf test rest

def everyField (test : Decoder → Bool) : List (Value × Decoder) → Bool
  | [] => true
  | (_, d) :: rest => d.every test && everyField test rest

end

theorem everyOf_eq_all (test : Decoder → Bool) (decoders : List Decoder) :
    everyOf test decoders = decoders.all (every test) := by
  induction decoders with
  | nil => simp [everyOf]
  | cons d rest ih => simp [everyOf, ih]

theorem everyField_eq_all (test : Decoder → Bool) (fields : List (Value × Decoder)) :
    everyField test fields = (fields.map Prod.snd).all (every test) := by
  induction fields with
  | nil => simp [everyField]
  | cons field rest ih => simp [everyField, ih]

theorem every_eq (test : Decoder → Bool) (d : Decoder) :
    d.every test = (test d && d.parts.all (every test)) := by
  cases d <;> simp [every, parts, everyOf_eq_all, everyField_eq_all]

theorem every_iff {test : Decoder → Bool} {d : Decoder} :
    d.every test = true ↔ d.Everywhere fun e => test e = true := by
  constructor
  · intro passed
    induction d.everywhere_true with
    | node _ _ ih =>
      rw [every_eq, Bool.and_eq_true, List.all_eq_true] at passed
      exact .node passed.1 fun e member => ih e member (passed.2 e member)
  · intro everywhere
    induction everywhere with
    | node here _ ih =>
      rw [every_eq, Bool.and_eq_true, List.all_eq_true]
      exact ⟨here, ih⟩

instance (test : Decoder → Bool) (d : Decoder) :
    Decidable (d.Everywhere fun e => test e = true) := decidable_of_iff _ every_iff

/-- What a decoder does once it is entered, its parts acting as they do. -/
def body (resolve : String → Action) : Decoder → Action
  | .primitive p => .primitive p
  | .constant v => .constant v
  | .object fields => .object (fields.map fun field => (field.1, field.2.action resolve))
  | .array item => .array (item.action resolve)
  | .optional of => .optional (of.action resolve)
  | .nullable of => .nullable (of.action resolve)
  | .withDefault of default => .withDefault (of.action resolve) default.run
  | .map of f => .map (of.action resolve) f
  | .lift f => .lift f
  | .compose first rest => .compose ((first :: rest).map (action resolve))
  | .preCondition of predicate => .preCondition (of.action resolve) predicate
  | .postCondition of predicate => .postCondition (of.action resolve) predicate
  | .fail message => .fail message
  | .failWith f => .failWith f
  | .alt options => .alt (options.map fun option => (option.name, option.action resolve))
  | .named _ of => of.action resolve
  | .inspect => .inspect
  | .ref name => resolve name
  | .push fragment of => .push fragment (of.action resolve)
  | .forbid message => .forbid message
  | .broken v => .notRunnable v

theorem actions_eq_map (resolve : String → Action) (decoders : List Decoder) :
    actions resolve decoders = decoders.map (action resolve) := by
  induction decoders with
  | nil => simp [actions]
  | cons d rest ih => simp [actions, ih]

theorem namedActions_eq_map (resolve : String → Action) (decoders : List Decoder) :
    namedActions resolve decoders = decoders.map fun d => (d.name, d.action resolve) := by
  induction decoders with
  | nil => simp [namedActions]
  | cons d rest ih => simp [namedActions, ih]

theorem fieldActions_eq_map (resolve : String → Action) (fields : List (Value × Decoder)) :
    fieldActions resolve fields = fields.map fun field => (field.1, field.2.action resolve) := by
  induction fields with
  | nil => simp [fieldActions]
  | cons field rest ih => simp [fieldActions, ih]

theorem action_eq_entering (resolve : String → Action) (d : Decoder) :
    d.action resolve = .entering d (d.body resolve) := by
  cases d <;>
    simp [action, body, actions_eq_map, namedActions_eq_map, fieldActions_eq_map]

theorem action_eq_run (resolve : String → Action) (d : Decoder) (v : Value) (c : Context) :
    d.action resolve v c =
      ⟨.entered d c v :: (d.body resolve v c).journal, (d.body resolve v c).outcome⟩ := by
  rw [action_eq_entering]
  rfl

end Intake.Decoder

namespace Intake.Definitions

def Everywhere (condition : Decoder → Prop) (defs : Definitions) : Prop :=
  ∀ entry ∈ defs, entry.2.Everywhere condition

instance (test : Decoder → Bool) (defs : Definitions) :
    Decidable (defs.Everywhere fun e => test e = true) :=
  inferInstanceAs (Decidable (∀ entry ∈ defs, entry.2.Everywhere fun e => test e = true))

theorem everywhere_true (defs : Definitions) : defs.Everywhere fun _ => True :=
  fun entry _ => entry.2.everywhere_true

theorem Everywhere.imp {condition wanted : Decoder → Prop} (imp : ∀ d, condition d → wanted d)
    {defs : Definitions} (everywhere : defs.Everywhere condition) : defs.Everywhere wanted :=
  fun entry member => (everywhere entry member).imp imp

theorem everywhere_of_lookup {condition : Decoder → Prop} {defs : Definitions} {name : String}
    {d : Decoder} (everywhere : defs.Everywhere condition) (found : defs.lookup name = some d) :
    d.Everywhere condition := by
  obtain ⟨before, after, rfl, _⟩ := List.lookup_eq_some_iff.mp found
  exact everywhere (name, d) (by simp)

end Intake.Definitions

namespace Intake.Decoder

/-- What holds of a decoder as soon as it holds of its parts, and of a name as soon as it
holds of the decoder behind it with less fuel, holds of every decoder with every fuel. -/
theorem runAt_induction_on {condition : Decoder → Prop} {defs : Definitions}
    {P : Decoder → Action → Prop} {R : String → Action → Prop}
    (exhausted : ∀ name, R name fun _ _ => Run.exhausted)
    (undefined : ∀ name, condition (.ref name) → defs.lookup name = none →
      R name fun _ _ => Run.raise (.undefinedReference name))
    (defined : ∀ name d a, defs.lookup name = some d → P d a → R name a)
    (node : ∀ fuel, (∀ name, condition (.ref name) → R name (defs.resolve fuel name)) →
      ∀ d, condition d → (∀ e ∈ d.parts, P e (e.runAt defs fuel)) → P d (d.runAt defs fuel))
    (within : defs.Everywhere condition) (fuel : Nat) {d : Decoder}
    (everywhere : d.Everywhere condition) : P d (d.runAt defs fuel) := by
  have references : ∀ name, condition (.ref name) → R name (defs.resolve fuel name) := by
    induction fuel with
    | zero => exact fun name _ => exhausted name
    | succ fuel ih =>
      intro name here
      cases found : defs.lookup name with
      | none =>
        simp only [Definitions.resolve, found]
        exact undefined name here found
      | some e =>
        simp only [Definitions.resolve, found]
        apply defined name e _ found
        have inside := Definitions.everywhere_of_lookup within found
        clear found
        induction inside with
        | node here _ parts => exact node fuel ih _ here parts
  induction everywhere with
  | node here _ parts => exact node fuel references _ here parts

/-- As `runAt_induction_on`, for what does not look at the decoder itself. -/
theorem runAt_induction {condition : Decoder → Prop} {defs : Definitions} {P : Action → Prop}
    (exhausted : P fun _ _ => Run.exhausted)
    (undefined : ∀ name, condition (.ref name) → defs.lookup name = none →
      P fun _ _ => Run.raise (.undefinedReference name))
    (node : ∀ fuel, (∀ name, condition (.ref name) → P (defs.resolve fuel name)) →
      ∀ d, condition d → (∀ e ∈ d.parts, P (e.runAt defs fuel)) → P (d.runAt defs fuel))
    (within : defs.Everywhere condition) (fuel : Nat) {d : Decoder}
    (everywhere : d.Everywhere condition) : P (d.runAt defs fuel) :=
  runAt_induction_on (P := fun _ => P) (R := fun _ => P) (fun _ => exhausted) undefined
    (fun _ _ _ _ holds => holds) node within fuel everywhere

end Intake.Decoder
