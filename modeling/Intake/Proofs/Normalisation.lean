import Intake.Proofs.Outcome

/-! What a decoder gives is in normal form for it: decoded once more at the same place, it
comes out as it is. A field that was left out is absent the second time. -/
namespace Intake

namespace Value

theorem text_same_iff {s : String} {v : Value} : (Value.text s).same v = true ↔ v = .text s := by
  cases v with
  | text t =>
    simp only [same, beq_iff_eq, Value.text.injEq]
    exact eq_comm
  | _ => simp [same]

theorem eq_absent_of_isAbsent {v : Value} (absent : v.isAbsent = true) : v = .absent := by
  cases v <;> first | rfl | cases absent

theorem lookup_cons (key k v : Value) (rest : List (Value × Value)) :
    lookup key ((k, v) :: rest) = if key.same k then v else lookup key rest := by
  simp only [lookup, find?]
  split <;> rfl

theorem lookup_text_of_not_mem {s : String} {entries : List (Value × Value)}
    (missing : .text s ∉ entries.map Prod.fst) : lookup (.text s) entries = .absent := by
  induction entries with
  | nil => rfl
  | cons entry rest ih =>
    rw [List.map_cons, List.mem_cons, not_or] at missing
    have other : ¬(Value.text s).same entry.1 = true := fun same =>
      missing.1 (text_same_iff.mp same).symm
    rw [lookup_cons, if_neg other]
    exact ih missing.2

/-- An entry with a name of its own is found, and found to be absent if it is left out. -/
theorem lookup_text_of_mem {s : String} {w : Value} {entries : List (Value × Value)}
    (distinct : (entries.map Prod.fst).Nodup) (member : (.text s, w) ∈ entries) :
    lookup (.text s) (entries.filter fun entry => !entry.2.isAbsent) = w := by
  induction entries with
  | nil => cases member
  | cons entry rest ih =>
    obtain ⟨k, u⟩ := entry
    obtain ⟨own, others⟩ := List.nodup_cons.mp distinct
    rcases List.mem_cons.mp member with same | inside
    · cases same
      cases absent : w.isAbsent with
      | true =>
        rw [List.filter_cons_of_neg (by simp [absent]), eq_absent_of_isAbsent absent]
        apply lookup_text_of_not_mem
        intro found
        obtain ⟨entry, kept, named⟩ := List.mem_map.mp found
        exact own (List.mem_map.mpr ⟨entry, (List.mem_filter.mp kept).1, named⟩)
      | false =>
        rw [List.filter_cons_of_pos (by simp [absent]), lookup_cons, if_pos (text_same_iff.mpr rfl)]
    · have different : ¬(Value.text s).same k = true := by
        intro same
        rw [text_same_iff.mp same] at own
        exact own (List.mem_map.mpr ⟨(.text s, w), inside, rfl⟩)
      cases absent : u.isAbsent with
      | true =>
        rw [List.filter_cons_of_neg (by simp [absent])]
        exact ih others inside
      | false =>
        rw [List.filter_cons_of_pos (by simp [absent]), lookup_cons, if_neg different]
        exact ih others inside

end Value

def Action.Normalises (a : Action) : Prop :=
  ∀ v c r, (a v c).outcome = .ok r → (a r c).outcome = .ok r

theorem Primitive.accept_accepted {p : Primitive} {v r : Value} (plain : p ≠ .dateTime)
    (accepted : p.accept v = .ok r) : r = v := by
  cases p with
  | dateTime => exact absurd rfl plain
  | url =>
    cases v with
    | text s =>
      rw [accept_url_text] at accepted
      split at accepted <;> cases accepted
      rfl
    | _ => cases accepted
  | _ => cases v <;> cases accepted <;> rfl

namespace Action

theorem normalises_primitive {p : Primitive} (plain : p ≠ .dateTime) :
    (primitive p).Normalises := by
  intro v c r given
  cases accepted : p.accept v with
  | error message => simp [primitive, accepted, Run.raise] at given
  | ok w =>
    simp only [primitive, accepted] at given
    cases Run.outcome_pure_eq_ok.mp given
    cases Primitive.accept_accepted plain accepted
    simp [primitive, accepted, Run.pure]

theorem normalises_object {fields : List (Value × Decoder)} {a : Decoder → Action}
    (texts : ∀ field ∈ fields, ∃ s, field.1 = .text s) (distinct : (fields.map Prod.fst).Nodup)
    (acts : ∀ field ∈ fields, (a field.2).Normalises) :
    (object (fields.map fun field => (field.1, a field.2))).Normalises := by
  intro v c r given
  obtain ⟨entries, result, _, rfl, each⟩ := outcome_object_eq_ok.mp given
  refine outcome_object_eq_ok.mpr ⟨_, result, rfl, rfl, ?_⟩
  intro field member
  obtain ⟨arrived, gives⟩ := each field member
  refine ⟨arrived, ?_⟩
  obtain ⟨s, named⟩ := texts field member
  have found : Value.lookup field.1 ((fields.map fun field => (field.1, result field)).filter
      fun entry => !entry.2.isAbsent) = result field := by
    rw [named]
    apply Value.lookup_text_of_mem
    · rw [List.map_map]
      exact distinct
    · rw [← named]
      exact List.mem_map_of_mem (f := fun field => (field.1, result field)) member
  rw [found]
  exact acts field member _ _ _ gives

theorem normalises_array {act : Action} (acts : act.Normalises) : (array act).Normalises := by
  intro v c r given
  obtain ⟨items, result, _, rfl, counted, each⟩ := outcome_array_eq_ok.mp given
  refine outcome_array_eq_ok.mpr ⟨items.zipIdx.map result, Prod.fst, rfl, ?_, ?_, ?_⟩
  · rw [List.zipIdx_map_fst]
  · rw [List.length_map, List.length_zipIdx]
    exact counted
  · rw [zipIdx_map_zipIdx]
    intro element member
    obtain ⟨earlier, inside, rfl⟩ := List.mem_map.mp member
    obtain ⟨arrived, gives⟩ := each earlier inside
    exact ⟨arrived, acts _ _ _ gives⟩

theorem normalises_exempt {act : Action} (acts : act.Normalises) (passes : Value → Bool) :
    (exempt passes act).Normalises := by
  intro v c r given
  rw [outcome_exempt_eq_ok] at given ⊢
  rcases given with ⟨passed, rfl⟩ | ⟨_, gives⟩
  · exact .inl ⟨passed, rfl⟩
  · cases again : passes r with
    | true => exact .inl ⟨rfl, rfl⟩
    | false => exact .inr ⟨rfl, acts v c r gives⟩

/-- The predicate is a function of what it is handed, and it is handed the same. -/
theorem normalises_postCondition {act : Action} (acts : act.Normalises) (predicate : Callback) :
    (postCondition act predicate).Normalises := by
  intro v c r given
  obtain ⟨w, gives, next⟩ := Run.outcome_bind_eq_ok.mp given
  obtain ⟨_, required, last⟩ := Run.outcome_bind_eq_ok.mp next
  cases Run.outcome_pure_eq_ok.mp last
  refine Run.outcome_bind_eq_ok.mpr ⟨r, acts v c r gives, ?_⟩
  exact Run.outcome_bind_eq_ok.mpr ⟨(), required, rfl⟩

end Action

namespace Decoder

/-- Built from the decoders that keep or drop what they are on and never put another value
in its place, with distinct texts for field names. -/
def isNormalising : Decoder → Bool
  | .primitive p => decide (p ≠ .dateTime)
  | .object fields => fields.all (fun field => field.1.text?.isSome) &&
      decide (fields.map fun field => field.1.text?).Nodup
  | .array _ | .optional _ | .nullable _ | .postCondition _ _ | .named _ _ | .ref _ => true
  | _ => false

theorem body_normalises {resolve : String → Action} {d : Decoder}
    (normalising : d.isNormalising = true)
    (references : ∀ name, d = .ref name → (resolve name).Normalises)
    (parts : ∀ e ∈ d.parts, (e.action resolve).Normalises) : (d.body resolve).Normalises := by
  cases d with
  | primitive p => exact Action.normalises_primitive (of_decide_eq_true normalising)
  | object fields =>
    obtain ⟨texts, distinct⟩ := Bool.and_eq_true_iff.mp normalising
    apply Action.normalises_object
    · intro field member
      have named := List.all_eq_true.mp texts field member
      cases key : field.1 with
      | text s => exact ⟨s, rfl⟩
      | _ => simp [key, Value.text?] at named
    · have apart : ((fields.map Prod.fst).map Value.text?).Nodup := by
        rw [List.map_map]
        exact of_decide_eq_true distinct
      refine List.Pairwise.of_map Value.text? ?_ apart
      exact fun _ _ differ same => differ (congrArg Value.text? same)
    · intro field member
      exact parts field.2 (List.mem_map_of_mem member)
  | array item => exact Action.normalises_array (parts item (List.mem_singleton_self _))
  | optional of =>
    simp only [body, Action.optional_eq_exempt]
    exact Action.normalises_exempt (parts of (List.mem_singleton_self _)) _
  | nullable of =>
    simp only [body, Action.nullable_eq_exempt]
    exact Action.normalises_exempt (parts of (List.mem_singleton_self _)) _
  | postCondition of predicate =>
    exact Action.normalises_postCondition (parts of (List.mem_singleton_self _)) predicate
  | named label of => exact parts of (List.mem_singleton_self _)
  | ref name => exact references name rfl
  | constant | withDefault | map | lift | compose | preCondition | fail | failWith | alt | inspect |
    push | forbid | broken => cases normalising

/-- A decoded value decodes to itself, under the same context and the same limits. -/
theorem decoded_is_normal {defs : Definitions} {d : Decoder} {fuel : Nat} {v : Value}
    {c : Context} {r : Value} (within : defs.Everywhere fun e => e.isNormalising = true)
    (everywhere : d.Everywhere fun e => e.isNormalising = true)
    (given : (d.runAt defs fuel v c).outcome = .ok r) :
    (d.runAt defs fuel r c).outcome = .ok r := by
  have normalises : (d.runAt defs fuel).Normalises := by
    refine runAt_induction (P := Action.Normalises) nofun ?_ ?_ within fuel everywhere
    · exact fun _ _ _ _ _ _ => nofun
    · intro fuel references e here parts v c r given
      rw [runAt, action_eq_run] at given ⊢
      exact body_normalises here (fun name eq => references name (eq ▸ here)) parts v c r given
  exact normalises v c r given

/-- An ordered mapping with an absent entry and an undeclared one, and tuples in tuples. -/
theorem decoded_is_normal_nested :
    let d : Decoder := .object [(.text "a", .optional (.primitive .string)), (.text "b", .ref "s")]
    let defs : Definitions := [("s", .array (.nullable (.ref "s")))]
    let c := (Context.root ⟨some ⟨.whole 4, .whole 2⟩, none⟩).push (.text "p")
    let v : Value := .mapping .ordered
      [(.text "z", .int 1), (.text "b", .tuple [.null, .tuple []]), (.text "a", .absent)]
    let r : Value := .mapping .plain [(.text "b", .list [.null, .list []])]
    d.Everywhere (·.isNormalising) ∧ defs.Everywhere (·.isNormalising) ∧
      (d.runAt defs 3 v c).outcome = .ok r ∧ (d.runAt defs 3 r c).outcome = .ok r := by
  intro d defs c v r
  have everywhere : d.Everywhere (·.isNormalising) := by decide
  have within : defs.Everywhere (·.isNormalising) := by decide
  have given : (d.runAt defs 3 v c).outcome = .ok r := by
    rw [runAt, action_eq_run]
    refine Action.outcome_object_eq_ok.mpr ⟨_, fun field =>
      if field.1.text? = some "a" then .absent else .list [.null, .list []], rfl, rfl, ?_⟩
    simp only [List.forall_mem_cons]
    have first : Value.lookup (.text "a") [(.text "z", .int 1),
        (.text "b", .tuple [.null, .tuple []]), (.text "a", .absent)] = .absent := by cbv
    have second : Value.lookup (.text "b") [(.text "z", .int 1),
        (.text "b", .tuple [.null, .tuple []]), (.text "a", .absent)] =
          .tuple [.null, .tuple []] := by cbv
    have arrived (fragment : Value) : (c.push fragment).arrive.outcome = .ok () := rfl
    refine ⟨⟨arrived _, ?_⟩, ⟨arrived _, ?_⟩, List.forall_mem_nil _⟩
    · rw [first]
      rfl
    · rw [second]
      rfl
  exact ⟨everywhere, within, given, decoded_is_normal within everywhere given⟩

end Decoder

end Intake
