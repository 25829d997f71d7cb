import Intake.Proofs.Pipeline
import Intake.Proofs.Reading

/-! Flat decoders. Compositions inside one another come to one composition of all the stages;
that leaves the name as it is (`text_flattened`), and what the decoder does
(`unentered_flattened`). -/
namespace Intake.Decoder

open Text

/-- One decoder for some stages: what passes its input on for none, and a single one itself. -/
def sequence : List Decoder → Decoder
  | [] => .primitive .identity
  | [d] => d
  | first :: next :: rest => .compose first (next :: rest)

mutual

/-- The flattened stages that a decoder runs one after the other. Of the combinators only those
that make structures, alternatives and compositions are gone into. -/
def stages : Decoder → List Decoder
  | .compose first rest => first.stages ++ stagesOf rest
  | .object fields => [.object (flattenedFields fields)]
  | .array item => [.array (sequence item.stages)]
  | .optional of => [.optional (sequence of.stages)]
  | .nullable of => [.nullable (sequence of.stages)]
  | .alt options => [.alt (flattenedOptions options)]
  | d => [d]

def stagesOf : List Decoder → List Decoder
  | [] => []
  | d :: rest => d.stages ++ stagesOf rest

def flattenedOptions : List Decoder → List Decoder
  | [] => []
  | d :: rest => sequence d.stages :: flattenedOptions rest

def flattenedFields : List (Value × Decoder) → List (Value × Decoder)
  | [] => []
  | (key, d) :: rest => (key, sequence d.stages) :: flattenedFields rest

end

def flattened (d : Decoder) : Decoder := sequence d.stages

theorem stagesOf_eq_flatMap (decoders : List Decoder) :
    stagesOf decoders = decoders.flatMap stages := by
  induction decoders with
  | nil => simp [stagesOf]
  | cons d rest ih => simp [stagesOf, ih]

theorem flattenedOptions_eq_map (options : List Decoder) :
    flattenedOptions options = options.map flattened := by
  induction options with
  | nil => simp [flattenedOptions]
  | cons d rest ih => simp [flattenedOptions, flattened, ih]

theorem flattenedFields_eq_map (fields : List (Value × Decoder)) :
    flattenedFields fields = fields.map fun field => (field.1, field.2.flattened) := by
  induction fields with
  | nil => simp [flattenedFields]
  | cons field rest ih => simp [flattenedFields, flattened, ih]

theorem stages_compose (first : Decoder) (rest : List Decoder) :
    (compose first rest).stages = (first :: rest).flatMap stages := by
  rw [stages, stagesOf_eq_flatMap, List.flatMap_cons]

theorem stages_object (fields : List (Value × Decoder)) : (object fields).stages =
    [object (fields.map fun field => (field.1, field.2.flattened))] := by
  rw [stages, flattenedFields_eq_map]

theorem stages_alt (options : List Decoder) :
    (alt options).stages = [alt (options.map flattened)] := by
  rw [stages, flattenedOptions_eq_map]

theorem stages_ne_nil (d : Decoder) : d.stages ≠ [] := by
  induction d.everywhere_true with
  | @node d _ _ ih =>
    cases d with
    | compose first rest =>
      rw [stages_compose, List.flatMap_cons]
      exact List.append_ne_nil_of_left_ne_nil (ih first List.mem_cons_self) _
    | _ => simp [stages]

section Text

/-- The name of a decoder as it stands inside another. -/
def text (d : Decoder) : List Char := (inner d.name).toList

variable {d : Decoder}

theorem inner_ne_empty (name : String) : inner name ≠ "" := by
  unfold inner
  split
  next => decide
  next filled => exact fun empty => filled (String.isEmpty_iff.mpr empty)

theorem text_ne_nil (d : Decoder) : d.text ≠ [] :=
  fun nothing => inner_ne_empty d.name (String.toList_eq_nil_iff.mp nothing)

theorem text_of_name_ne_empty (filled : d.name ≠ "") : d.text = d.name.toList := by
  have whole : d.name.isEmpty = false := by
    rw [Bool.eq_false_iff]
    exact fun empty => filled (String.isEmpty_iff.mp empty)
  simp [text, inner, whole]

def arrow : List Char := [' ', '>', '>', ' ']

theorem innerNames_eq_map (decoders : List Decoder) :
    innerNames decoders = decoders.map fun d => inner d.name := by
  induction decoders with
  | nil => simp [innerNames]
  | cons d rest ih => simp [innerNames, ih]

theorem toList_innerNames (decoders : List Decoder) :
    (innerNames decoders).map String.toList = decoders.map text := by
  rw [innerNames_eq_map, List.map_map]
  rfl

def bracketed (word : String) (inside : List Char) : List Char :=
  word.toList ++ '(' :: (inside ++ [')'])

theorem toList_around (combinator argument : String) :
    (around combinator argument).toList = bracketed combinator argument.toList := by
  simp [around, bracketed]

theorem around_ne_empty (combinator argument : String) : around combinator argument ≠ "" := by
  intro empty
  have written := toList_around combinator argument
  simp [empty, bracketed] at written

theorem text_of_around {combinator argument : String}
    (named : d.name = around combinator argument) :
    d.text = bracketed combinator argument.toList := by
  rw [text_of_name_ne_empty (named ▸ around_ne_empty _ _), named, toList_around]

theorem text_array (item : Decoder) : (array item).text = bracketed "array" item.text :=
  text_of_around rfl

theorem text_optional (of : Decoder) : (optional of).text = bracketed "optional" of.text :=
  text_of_around rfl

theorem text_nullable (of : Decoder) : (nullable of).text = bracketed "nullable" of.text :=
  text_of_around rfl

def comma : List Char := [',', ' ']

def optionsText (options : List Decoder) : List Char := comma.intercalate (options.map text)

theorem text_alt (options : List Decoder) :
    (alt options).text = bracketed "alt" (optionsText options) := by
  have named : (alt options).name = around "alt" (", ".intercalate (innerNames options)) := rfl
  rw [text_of_around named, String.toList_intercalate, toList_innerNames]
  rfl

def fieldText (field : Value × Decoder) : List Char :=
  field.1.display.toList ++ ':' :: ' ' :: field.2.text

theorem toList_fieldNames (fields : List (Value × Decoder)) :
    (fieldNames fields).map String.toList = fields.map fieldText := by
  induction fields with
  | nil => simp [fieldNames]
  | cons field rest ih => simp [fieldNames, fieldText, text, ih]

def fieldsText (fields : List (Value × Decoder)) : List Char :=
  '\x7b' :: (comma.intercalate (fields.map fieldText) ++ ['\x7d'])

theorem text_object (fields : List (Value × Decoder)) :
    (object fields).text = bracketed "object" (fieldsText fields) := by
  have named : (object fields).name = around "object"
    (Value.openBrace ++ ", ".intercalate (fieldNames fields) ++ Value.closeBrace) := rfl
  rw [text_of_around named]
  simp only [String.toList_append, String.toList_intercalate, toList_fieldNames, List.append_assoc]
  rfl

theorem toList_name_compose (first : Decoder) (rest : List Decoder) :
    (compose first rest).name.toList = arrow.intercalate ((first :: rest).map text) := by
  have named : (compose first rest).name =
    " >> ".intercalate (inner first.name :: innerNames rest) := rfl
  rw [named, String.toList_intercalate, List.map_cons, toList_innerNames]
  rfl

theorem name_compose_ne_empty (first : Decoder) (rest : List Decoder) :
    (compose first rest).name ≠ "" := by
  intro empty
  have written := toList_name_compose first rest
  rw [empty] at written
  refine intercalate_ne_nil (by simp) ?_ written.symm
  intro item member
  obtain ⟨d, _, rfl⟩ := List.mem_map.mp member
  exact d.text_ne_nil

theorem text_compose (first : Decoder) (rest : List Decoder) :
    (compose first rest).text = arrow.intercalate ((first :: rest).map text) := by
  rw [text_of_name_ne_empty (name_compose_ne_empty first rest), toList_name_compose]

theorem text_sequence {decoders : List Decoder} (inhabited : decoders ≠ []) :
    (sequence decoders).text = arrow.intercalate (decoders.map text) := by
  match decoders with
  | [] => exact absurd rfl inhabited
  | [d] => rw [sequence, List.map_singleton, List.intercalate_singleton]
  | first :: next :: rest => rw [sequence, text_compose]

/-- Flattening is not seen in a name. -/
theorem text_flattened (d : Decoder) : d.flattened.text = d.text := by
  induction d.everywhere_true with
  | @node d _ _ ih =>
    rw [flattened, text_sequence d.stages_ne_nil]
    cases d with
    | compose first rest =>
      have inhabited : ∀ e ∈ first :: rest, e.stages.map text ≠ [] :=
        fun e _ nothing => e.stages_ne_nil (List.map_eq_nil_iff.mp nothing)
      rw [stages_compose, List.map_flatMap, intercalate_flatMap arrow inhabited, text_compose]
      refine congrArg _ (List.map_congr_left fun e member => ?_)
      rw [← text_sequence e.stages_ne_nil]
      exact ih e member
    | object fields =>
      have same : fieldsText (fields.map fun field => (field.1, field.2.flattened)) =
          fieldsText fields := by
        rw [fieldsText, fieldsText, List.map_map]
        refine congrArg (fun texts => '\x7b' :: (comma.intercalate texts ++ ['\x7d'])) ?_
        refine List.map_congr_left fun field member => ?_
        simp only [Function.comp_apply, fieldText, ih field.2 (List.mem_map_of_mem member)]
      rw [stages_object, List.map_singleton, List.intercalate_singleton, text_object, text_object,
        same]
    | alt options =>
      have same : optionsText (options.map flattened) = optionsText options := by
        rw [optionsText, optionsText, List.map_map]
        exact congrArg _ (List.map_congr_left ih)
      rw [stages_alt, List.map_singleton, List.intercalate_singleton, text_alt, text_alt, same]
    | array of =>
      have same : (sequence of.stages).text = of.text := ih of (List.mem_singleton_self _)
      rw [stages, List.map_singleton, List.intercalate_singleton, text_array, text_array, same]
    | optional of =>
      have same : (sequence of.stages).text = of.text := ih of (List.mem_singleton_self _)
      rw [stages, List.map_singleton, List.intercalate_singleton, text_optional, text_optional,
        same]
    | nullable of =>
      have same : (sequence of.stages).text = of.text := ih of (List.mem_singleton_self _)
      rw [stages, List.map_singleton, List.intercalate_singleton, text_nullable, text_nullable,
        same]
    | _ => simp only [stages, List.map_singleton, List.intercalate_singleton]

end Text

section Meaning

variable {resolve : String → Action} {d : Decoder}

def isNamed (d : Decoder) : Bool := !d.name.isEmpty

theorem isNamed_iff : d.isNamed = true ↔ d.name ≠ "" := by
  rw [isNamed, Bool.not_eq_true', Bool.eq_false_iff, ne_eq, String.isEmpty_iff]

theorem isNamed_of_mem_stages (named : d.Everywhere fun e => e.isNamed) {stage : Decoder}
    (member : stage ∈ d.stages) : stage.isNamed = true := by
  induction named with
  | @node d here _ ih =>
    cases d with
    | compose first rest =>
      rw [stages_compose] at member
      obtain ⟨e, part, inside⟩ := List.mem_flatMap.mp member
      exact ih e part inside
    | object | array | alt | optional | nullable =>
      cases List.mem_singleton.mp member
      exact isNamed_iff.mpr (around_ne_empty _ _)
    | _ =>
      simp only [stages, List.mem_singleton] at member
      exact member ▸ here

theorem name_flattened (named : d.Everywhere fun e => e.isNamed) : d.flattened.name = d.name := by
  have filled : d.flattened.name ≠ "" := by
    match eq : d.stages with
    | [] => exact absurd eq d.stages_ne_nil
    | [stage] =>
      rw [flattened, eq, sequence]
      exact isNamed_iff.mp (isNamed_of_mem_stages named (eq ▸ List.mem_singleton_self _))
    | first :: next :: rest =>
      rw [flattened, eq, sequence]
      exact name_compose_ne_empty _ _
  have whole : d.name ≠ "" := by
    cases named with
    | node here _ => exact isNamed_iff.mp here
  rw [← String.toList_inj, ← text_of_name_ne_empty filled, ← text_of_name_ne_empty whole,
    text_flattened]

theorem unentered_sequence (decoders : List Decoder) (v : Value) (c : Context) :
    ((sequence decoders).action resolve v c).unentered =
      (actAll resolve decoders v c).unentered := by
  match decoders with
  | [] => exact unentered_action _ _ _
  | [d] => rw [sequence, actAll_singleton]
  | first :: next :: rest => exact unentered_compose _ _ _ _

theorem unentered_actAll_flatMap {decoders : List Decoder}
    (each : ∀ d ∈ decoders, ∀ v c, (d.action resolve v c).unentered =
      (actAll resolve d.stages v c).unentered) (v : Value) (c : Context) :
    (actAll resolve decoders v c).unentered =
      (actAll resolve (decoders.flatMap stages) v c).unentered := by
  induction decoders generalizing v with
  | nil => rfl
  | cons d rest ih =>
    obtain ⟨first, others⟩ := List.forall_mem_cons.mp each
    rw [List.flatMap_cons, actAll_cons, actAll_append]
    exact Run.seen_bind_congr (first v c) fun w => ih others w

/-- A decoder does what its flattened stages do one after the other. -/
theorem unentered_stages (named : d.Everywhere fun e => e.isNamed) (v : Value) (c : Context) :
    (d.action resolve v c).unentered = (actAll resolve d.stages v c).unentered := by
  induction named generalizing v c with
  | @node d here parts ih =>
    have flat {e : Decoder} (member : e ∈ d.parts) (v : Value) (c : Context) :
        (e.action resolve v c).unentered = (e.flattened.action resolve v c).unentered :=
      (ih e member v c).trans (unentered_sequence _ _ _).symm
    cases d with
    | compose first rest =>
      rw [unentered_compose, stages_compose]
      exact unentered_actAll_flatMap ih v c
    | object fields =>
      rw [stages_object, actAll_singleton, unentered_action, unentered_action, body, body]
      cases shape : v.entries? with
      | none => rw [Action.object_of_none shape, Action.object_of_none shape]
      | some entries =>
        rw [Action.object_of_some shape, Action.object_of_some shape, List.map_map,
          Run.traverse_map, Run.traverse_map]
        refine Run.seen_bind_congr (Run.seen_traverse_congr fun field member => ?_) fun _ => rfl
        rw [Action.field_eq, Function.comp_apply, Action.field_eq]
        refine Run.seen_bind_congr rfl fun _ => ?_
        exact Run.seen_bind_congr (flat (List.mem_map_of_mem member) _ _) fun _ => rfl
    | array item =>
      rw [stages, actAll_singleton, unentered_action, unentered_action, body, body]
      cases shape : v.items? with
      | none => rw [Action.array_of_none shape, Action.array_of_none shape]
      | some items =>
        rw [Action.array_of_some shape, Action.array_of_some shape]
        refine Run.seen_bind_congr rfl fun _ => ?_
        refine Run.seen_bind_congr (Run.seen_traverse_congr fun element _ => ?_) fun _ => rfl
        rw [Action.item_eq, Action.item_eq]
        exact Run.seen_bind_congr rfl fun _ => flat (List.mem_singleton_self _) _ _
    | alt options =>
      -- A rejection is logged with the name of the option, which is to be the same.
      have named (e : Decoder) (member : e ∈ options) :
          (e.flattened.name, e.flattened.action resolve) =
            (e.name, e.flattened.action resolve) := by
        rw [name_flattened (parts e member)]
      rw [stages_alt, actAll_singleton, unentered_action, unentered_action, body, body,
        List.map_map]
      simp only [Function.comp_def]
      rw [List.map_congr_left named]
      exact Action.seen_alternatives (fun e member => flat member v c) none
    | optional of =>
      rw [stages, actAll_singleton, unentered_action, unentered_action, body, body]
      simp only [Action.optional]
      split
      · rfl
      · exact flat (List.mem_singleton_self _) v c
    | nullable of =>
      rw [stages, actAll_singleton, unentered_action, unentered_action, body, body]
      simp only [Action.nullable]
      split
      · rfl
      · exact flat (List.mem_singleton_self _) v c
    | _ => simp only [stages, actAll_singleton]

/-- Flattening changes nothing but which decoders are entered. -/
theorem unentered_flattened (named : d.Everywhere fun e => e.isNamed) (v : Value) (c : Context) :
    (d.action resolve v c).unentered = (d.flattened.action resolve v c).unentered :=
  (unentered_stages named v c).trans (unentered_sequence _ v c).symm

end Meaning

end Intake.Decoder
