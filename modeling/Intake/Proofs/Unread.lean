import Intake.Proofs.Observation

/-! Input that a decoder does not read is of no account. Inputs that differ only there
(`Decoder.Indistinct`) give runs that differ in nothing but the inputs that decoders are
entered on. -/
namespace Intake

/-- Two inputs that the decoder cannot tell apart: they differ in what it does not read. -/
inductive Decoder.Indistinct (defs : Definitions) : Decoder → Value → Value → Prop where
  | same : Indistinct defs d v v
  | object : v.entries? = some entries → w.entries? = some others →
      (∀ field ∈ fields, Indistinct defs field.2 (Value.lookup field.1 entries)
        (Value.lookup field.1 others)) → Indistinct defs (.object fields) v w
  | array : v.items? = some items → w.items? = some others → items.length = others.length →
      (∀ (i : Nat) a b, items[i]? = some a → others[i]? = some b → Indistinct defs item a b) →
      Indistinct defs (.array item) v w
  | optional : Indistinct defs d v w → Indistinct defs (.optional d) v w
  | nullable : Indistinct defs d v w → Indistinct defs (.nullable d) v w
  | withDefault : Indistinct defs d v w → Indistinct defs (.withDefault d instead) v w
  | map : Indistinct defs d v w → Indistinct defs (.map d f) v w
  | postCondition : Indistinct defs d v w → Indistinct defs (.postCondition d f) v w
  | named : Indistinct defs d v w → Indistinct defs (.named label d) v w
  | push : Indistinct defs d v w → Indistinct defs (.push fragment d) v w
  /-- Only the first stage is on the input. -/
  | compose : Indistinct defs first v w → Indistinct defs (.compose first rest) v w
  | alt : options ≠ [] → (∀ option ∈ options, Indistinct defs option v w) →
      Indistinct defs (.alt options) v w
  | ref : defs.lookup target = some d → Indistinct defs d v w → Indistinct defs (.ref target) v w

namespace Value

theorem isPresent_iff {v : Value} :
    v.isPresent = true ↔ v.isAbsent = false ∧ v.isNull = false := by simp [isPresent]

theorem isPresent_of_entries {v : Value} {entries : List (Value × Value)}
    (shape : v.entries? = some entries) : v.isPresent = true := by
  cases v with
  | mapping => rfl
  | _ => cases shape

theorem isPresent_of_items {v : Value} {items : List Value} (shape : v.items? = some items) :
    v.isPresent = true := by
  cases v with
  | list | tuple => rfl
  | _ => cases shape

end Value

def Event.inputless : Event → Option Event
  | .entered d c _ => some (.entered d c .null)
  | e => some e

namespace Run

abbrev inputless (r : Run α) : Run α := r.seen Event.inputless

theorem looksLike_of_inputless {r r' : Run α} (same : r.inputless = r'.inputless) :
    r.LooksLike r' :=
  looksLike_of_seen (fun e => by cases e <;> rfl) (fun e => by cases e <;> rfl) same

end Run

namespace Decoder

variable {defs : Definitions} {d : Decoder} {v w : Value}

/-- Of inputs that cannot be told apart both are there, unless they are one input. -/
theorem Indistinct.eq_or_present (indistinct : d.Indistinct defs v w) :
    v = w ∨ v.isPresent = true ∧ w.isPresent = true := by
  induction indistinct with
  | same => exact .inl rfl
  | object shape shape' =>
    exact .inr ⟨Value.isPresent_of_entries shape, Value.isPresent_of_entries shape'⟩
  | array shape shape' =>
    exact .inr ⟨Value.isPresent_of_items shape, Value.isPresent_of_items shape'⟩
  | alt some _ ih =>
    obtain ⟨option, member⟩ := List.exists_mem_of_ne_nil _ some
    exact ih option member
  | optional _ ih | nullable _ ih | withDefault _ ih | map _ ih | postCondition _ ih
  | named _ ih | push _ ih | compose _ ih | ref _ _ ih => exact ih

theorem seen_action {resolve : String → Action} {c : Context}
    (body : (d.body resolve v c).inputless = (d.body resolve w c).inputless) :
    (d.action resolve v c).inputless = (d.action resolve w c).inputless := by
  rw [action_eq_entering]
  exact Run.seen_bind_congr rfl fun _ => body

/-- Inputs that cannot be told apart give runs that differ in inputs alone. -/
theorem Indistinct.seen_runAt (indistinct : d.Indistinct defs v w) (fuel : Nat) (c : Context) :
    (d.runAt defs fuel v c).inputless = (d.runAt defs fuel w c).inputless := by
  induction indistinct generalizing fuel c with
  | same => rfl
  | object shape shape' _ ih =>
    apply seen_action
    rw [body, Action.object_of_some shape, Action.object_of_some shape', Run.traverse_map,
      Run.traverse_map]
    refine Run.seen_bind_congr (Run.seen_traverse_congr ?_) fun _ => rfl
    intro field member
    rw [Action.field_eq, Action.field_eq]
    refine Run.seen_bind_congr rfl fun _ => ?_
    exact Run.seen_bind_congr (ih field member fuel _) fun _ => rfl
  | array shape shape' size _ ih =>
    apply seen_action
    rw [body, Action.array_of_some shape, Action.array_of_some shape', size]
    refine Run.seen_bind_congr rfl fun _ => ?_
    refine Run.seen_bind_congr (Run.seen_traverse_zipIdx 0 size ?_) fun _ => rfl
    intro i a b found found'
    rw [Action.item_eq, Action.item_eq, Nat.zero_add]
    exact Run.seen_bind_congr rfl fun _ => ih i a b found found' fuel _
  | optional indistinct ih =>
    apply seen_action
    rcases indistinct.eq_or_present with rfl | ⟨there, there'⟩
    · rfl
    · simp only [body, Action.optional, (Value.isPresent_iff.mp there).1,
        (Value.isPresent_iff.mp there').1]
      exact ih fuel c
  | nullable indistinct ih =>
    apply seen_action
    rcases indistinct.eq_or_present with rfl | ⟨there, there'⟩
    · rfl
    · simp only [body, Action.nullable, (Value.isPresent_iff.mp there).2,
        (Value.isPresent_iff.mp there').2]
      exact ih fuel c
  | withDefault _ ih | map _ ih | postCondition _ ih | compose _ ih =>
    exact seen_action (Run.seen_bind_congr (ih fuel c) fun _ => rfl)
  | named _ ih => exact seen_action (ih fuel c)
  | push _ ih => exact seen_action (ih fuel _)
  | alt _ _ ih =>
    apply seen_action
    exact Action.seen_alternatives (fun option member => ih option member fuel c) none
  | ref found _ ih =>
    apply seen_action
    cases fuel with
    | zero => rfl
    | succ fuel =>
      simp only [body, Definitions.resolve, found]
      exact ih fuel c

/-- What a decoder does not read changes neither what it gives nor how and where it fails,
neither the callbacks nor the log. -/
theorem unread_input_is_immaterial (indistinct : d.Indistinct defs v w) (fuel : Nat) :
    (∀ c, (d.runAt defs fuel v c).LooksLike (d.runAt defs fuel w c)) ∧
      ∀ config, (d.run defs fuel config v).LooksLike (d.run defs fuel config w) := by
  refine ⟨fun c => Run.looksLike_of_inputless (indistinct.seen_runAt fuel c), fun config => ?_⟩
  have logged (record : Record) : Event.inputless (.logged record) = some (.logged record) := rfl
  apply Run.looksLike_of_inputless
  rw [run, run, Run.inputless, Run.inputless, Run.seen_announced _ logged,
    Run.seen_announced _ logged]
  exact congrArg _ (indistinct.seen_runAt fuel (.root config))

/-- Two alternatives, each on rows that are kept in different ways and hold different keys. -/
theorem unread_input_is_immaterial_rows :
    let row (field : Decoder) : Decoder := .object [(.text "a", .optional field)]
    let defs : Definitions := [("row", row (.primitive .number))]
    let d : Decoder := .alt [.array (.ref "row"), .named "rows" (.array (row (.primitive .string)))]
    let v : Value := .tuple [.mapping .readOnly [(.text "b", .int 1)],
      .mapping .plain [(.text "a", .text "x"), (.text "c", .null)]]
    let w : Value := .list [.mapping .plain [],
      .mapping .ordered [(.int 0, .list []), (.text "a", .text "x")]]
    d.Indistinct defs v w ∧ (d.run defs 1 .default v).LooksLike (d.run defs 1 .default w) := by
  intro row defs d v w
  have missing : Value.lookup (.text "a") [(.text "b", .int 1)] = Value.lookup (.text "a") [] := by
    cbv
  have found : Value.lookup (.text "a") [(.text "a", .text "x"), (.text "c", .null)] =
      Value.lookup (.text "a") [(.int 0, .list []), (.text "a", .text "x")] := by cbv
  have rows (e field : Decoder)
      (each : ∀ a b, (row field).Indistinct defs a b → e.Indistinct defs a b) :
      (Decoder.array e).Indistinct defs v w := by
    refine .array rfl rfl rfl fun i a b at_left at_right => each a b ?_
    rcases i with _ | _ | i
    · cases at_left
      cases at_right
      exact .object rfl rfl (List.forall_mem_singleton.mpr (missing ▸ .same))
    · cases at_left
      cases at_right
      exact .object rfl rfl (List.forall_mem_singleton.mpr (found ▸ .same))
    · cases at_left
  have indistinct : d.Indistinct defs v w := by
    refine .alt (List.cons_ne_nil _ _) (List.forall_mem_cons.mpr ⟨?_, ?_⟩)
    · exact rows _ (.primitive .number) fun a b => .ref rfl
    · refine List.forall_mem_singleton.mpr (.named ?_)
      exact rows _ (.primitive .string) fun a b indistinct => indistinct
  exact ⟨indistinct, (unread_input_is_immaterial indistinct 1).2 .default⟩

end Decoder

end Intake
