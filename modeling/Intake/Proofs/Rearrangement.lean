import Intake.Proofs.Conformance

/-! The order of declared fields and of alternatives. Which values a decoder accepts depends on
neither; what is made of a value depends on that of fields only in its order of entries. -/
namespace Intake

/-- The same but for the order of the entries of mappings, at any depth. -/
inductive Value.Reordered : Value → Value → Prop where
  | same : Reordered v v
  | list (pairs : List (Value × Value)) : (∀ p ∈ pairs, Reordered p.1 p.2) →
      Reordered (.list (pairs.map Prod.fst)) (.list (pairs.map Prod.snd))
  | mapping (entries : List (Value × Value × Value)) :
      first.Perm (entries.map fun e => (e.1, e.2.1)) →
      second.Perm (entries.map fun e => (e.1, e.2.2)) →
      (∀ e ∈ entries, Reordered e.2.1 e.2.2) →
      Reordered (.mapping kind first) (.mapping kind second)

theorem Value.Reordered.isAbsent_eq {v w : Value} (reordered : v.Reordered w) :
    w.isAbsent = v.isAbsent := by
  cases reordered <;> rfl

theorem Value.Reordered.isPresent_eq {v w : Value} (reordered : v.Reordered w) :
    w.isPresent = v.isPresent := by
  cases reordered <;> rfl

/-- The same but for the order in which fields are declared and, where that is `free`, the
order of alternatives, at any depth. Each list of fields or alternatives is one side of a
list of pairs, in any order. -/
inductive Decoder.Rearranged (free : Prop) : Decoder → Decoder → Prop where
  | primitive : Rearranged free (.primitive p) (.primitive p)
  | constant : Rearranged free (.constant w) (.constant w)
  | object (pairs : List (Value × Decoder × Decoder)) :
      fields.Perm (pairs.map fun p => (p.1, p.2.1)) →
      fields'.Perm (pairs.map fun p => (p.1, p.2.2)) →
      (∀ p ∈ pairs, Rearranged free p.2.1 p.2.2) →
      Rearranged free (.object fields) (.object fields')
  | array : Rearranged free e e' → Rearranged free (.array e) (.array e')
  | optional : Rearranged free e e' → Rearranged free (.optional e) (.optional e')
  | nullable : Rearranged free e e' → Rearranged free (.nullable e) (.nullable e')
  | withDefault : Rearranged free e e' →
      Rearranged free (.withDefault e (.value w)) (.withDefault e' (.value w))
  | alt (pairs : List (Decoder × Decoder)) :
      options.Perm (pairs.map Prod.fst) → options'.Perm (pairs.map Prod.snd) →
      (¬free → options = pairs.map Prod.fst ∧ options' = pairs.map Prod.snd) →
      (∀ p ∈ pairs, Rearranged free p.1 p.2) → Rearranged free (.alt options) (.alt options')
  | named : Rearranged free e e' → Rearranged free (.named label e) (.named label e')
  | ref : Rearranged free (.ref target) (.ref target)

def Definitions.Rearranged (free : Prop) (defs defs' : Definitions) : Prop :=
  ∃ pairs : List (String × Decoder × Decoder),
    defs = pairs.map (fun p => (p.1, p.2.1)) ∧ defs' = pairs.map (fun p => (p.1, p.2.2)) ∧
      ∀ p ∈ pairs, p.2.1.Rearranged free p.2.2

namespace Decoder

variable {free : Prop} {d d' : Decoder}

theorem Rearranged.symm (same : d.Rearranged free d') : d'.Rearranged free d := by
  induction same with
  | primitive => exact .primitive
  | constant => exact .constant
  | object pairs first second _ ih =>
    refine .object (pairs.map fun p => (p.1, p.2.2, p.2.1)) ?_ ?_ ?_
    · rwa [List.map_map]
    · rwa [List.map_map]
    · intro p member
      obtain ⟨q, inside, rfl⟩ := List.mem_map.mp member
      exact ih q inside
  | array _ ih => exact .array ih
  | optional _ ih => exact .optional ih
  | nullable _ ih => exact .nullable ih
  | withDefault _ ih => exact .withDefault ih
  | alt pairs first second fixed _ ih =>
    refine .alt (pairs.map Prod.swap) ?_ ?_ ?_ ?_
    · rwa [List.map_map]
    · rwa [List.map_map]
    · intro bound
      rw [List.map_map, List.map_map]
      exact (fixed bound).symm
    · intro p member
      obtain ⟨q, inside, rfl⟩ := List.mem_map.mp member
      exact ih q inside
  | named _ ih => exact .named ih
  | ref => exact .ref

theorem rearranged_self (structural : d.Everywhere fun e => e.isStructural = true) :
    d.Rearranged free d := by
  induction structural with
  | @node d here _ ih =>
    cases d with
    | primitive p => exact .primitive
    | constant w => exact .constant
    | object fields =>
      refine .object (fields.map fun field => (field.1, field.2, field.2)) ?_ ?_ ?_
      · simp [Function.comp_def]
      · simp [Function.comp_def]
      · intro p member
        obtain ⟨field, inside, rfl⟩ := List.mem_map.mp member
        exact ih field.2 (List.mem_map_of_mem inside)
    | array of => exact .array (ih of (List.mem_singleton_self _))
    | optional of => exact .optional (ih of (List.mem_singleton_self _))
    | nullable of => exact .nullable (ih of (List.mem_singleton_self _))
    | withDefault of instead =>
      cases instead with
      | value w => exact .withDefault (ih of (List.mem_singleton_self _))
      | supplier f => cases here
    | alt options =>
      refine .alt (options.map fun e => (e, e)) ?_ ?_ ?_ ?_
      · simp [Function.comp_def]
      · simp [Function.comp_def]
      · simp [Function.comp_def]
      · intro p member
        obtain ⟨e, inside, rfl⟩ := List.mem_map.mp member
        exact ih e inside
    | named label of => exact .named (ih of (List.mem_singleton_self _))
    | ref name => exact .ref
    | map | lift | compose | preCondition | postCondition | fail | failWith | inspect | push |
      forbid | broken => cases here

theorem Rearranged.exists_part (same : d.Rearranged free d') {e' : Decoder}
    (inside : e' ∈ d'.parts) : ∃ e ∈ d.parts, e.Rearranged free e' := by
  cases same with
  | object pairs first second inner =>
    obtain ⟨field', member, rfl⟩ := List.mem_map.mp inside
    obtain ⟨p, paired, rfl⟩ := List.mem_map.mp (second.mem_iff.mp member)
    refine ⟨p.2.1, ?_, inner p paired⟩
    have member : (p.1, p.2.1) ∈ _ := first.mem_iff.mpr (List.mem_map.mpr ⟨p, paired, rfl⟩)
    exact List.mem_map.mpr ⟨_, member, rfl⟩
  | alt pairs first second _ inner =>
    obtain ⟨p, paired, rfl⟩ := List.mem_map.mp (second.mem_iff.mp inside)
    exact ⟨p.1, first.mem_iff.mpr (List.mem_map_of_mem paired), inner p paired⟩
  | array inner | optional inner | nullable inner | withDefault inner | named inner =>
    cases List.mem_singleton.mp inside
    exact ⟨_, List.mem_singleton_self _, inner⟩
  | primitive | constant | ref => cases inside

theorem Rearranged.descends_eq (same : d.Rearranged free d') : d'.descends = d.descends := by
  cases same <;> rfl

theorem Heads.rearranged {target : String} (heads : d'.Heads target)
    (same : d.Rearranged free d') : d.Heads target := by
  induction heads generalizing d with
  | ref =>
    cases same
    exact .ref
  | part flat inside _ ih =>
    obtain ⟨e, part, inner⟩ := same.exists_part inside
    exact .part (same.descends_eq ▸ flat) part (ih inner)

theorem Everywhere.rearranged {condition wanted : Decoder → Prop}
    (node : ∀ e e', e.Rearranged free e' → condition e → wanted e')
    (everywhere : d.Everywhere condition) (same : d.Rearranged free d') :
    d'.Everywhere wanted := by
  induction everywhere generalizing d' with
  | node here _ ih =>
    refine .node (node _ _ same here) ?_
    intro e' inside
    obtain ⟨e, part, inner⟩ := same.exists_part inside
    exact ih e part inner

end Decoder

namespace Definitions

variable {free : Prop} {defs defs' : Definitions}

theorem Rearranged.symm (names : defs.Rearranged free defs') : defs'.Rearranged free defs := by
  obtain ⟨pairs, rfl, rfl, inner⟩ := names
  refine ⟨pairs.map fun p => (p.1, p.2.2, p.2.1), ?_, ?_, ?_⟩
  · rw [List.map_map]
    rfl
  · rw [List.map_map]
    rfl
  · intro p member
    obtain ⟨q, inside, rfl⟩ := List.mem_map.mp member
    exact (inner q inside).symm

theorem Rearranged.lookup (names : defs.Rearranged free defs') {name : String} {d : Decoder}
    (found : defs.lookup name = some d) :
    ∃ d', defs'.lookup name = some d' ∧ d.Rearranged free d' := by
  obtain ⟨pairs, rfl, rfl, inner⟩ := names
  induction pairs with
  | nil => cases found
  | cons p rest ih =>
    obtain ⟨first, others⟩ := List.forall_mem_cons.mp inner
    rw [List.map_cons, List.lookup_cons] at found ⊢
    split at found
    next here =>
      cases found
      exact ⟨p.2.2, by simp, first⟩
    next elsewhere =>
      obtain ⟨d', found', same⟩ := ih found others
      exact ⟨d', by simpa [elsewhere] using found', same⟩

theorem Guarded.rearranged (guarded : defs.Guarded) (names : defs.Rearranged free defs') :
    defs'.Guarded := by
  intro name cycle
  apply guarded name
  refine Relation.TransGen.mono ?_ name name cycle
  rintro a b ⟨d', found', heads⟩
  obtain ⟨d, found, same⟩ := names.symm.lookup found'
  exact ⟨d, found, heads.rearranged same.symm⟩

end Definitions

namespace Decoder

variable {free : Prop} {defs defs' : Definitions} {d d' : Decoder}

theorem Rearranged.isGrammatical (names : defs.Rearranged free defs')
    (same : d.Rearranged free d') (grammatical : d.isGrammatical defs = true) :
    d'.isGrammatical defs' = true := by
  cases same with
  | object pairs first second _ =>
    obtain ⟨structural, _⟩ := Bool.and_eq_true_iff.mp grammatical
    refine Bool.and_eq_true_iff.mpr ⟨List.all_eq_true.mpr ?_, rfl⟩
    intro field' member
    obtain ⟨p, paired, rfl⟩ := List.mem_map.mp (second.mem_iff.mp member)
    exact List.all_eq_true.mp structural (p.1, p.2.1)
      (first.mem_iff.mpr (List.mem_map.mpr ⟨p, paired, rfl⟩))
  | @ref target =>
    obtain ⟨_, defined⟩ := Bool.and_eq_true_iff.mp grammatical
    obtain ⟨e, found⟩ := Option.isSome_iff_exists.mp defined
    obtain ⟨e', found', _⟩ := names.lookup found
    exact Bool.and_eq_true_iff.mpr ⟨rfl, Option.isSome_iff_exists.mpr ⟨e', found'⟩⟩
  | _ => exact grammatical

theorem Conforms.rearranged {v : Value} (conforms : d.Conforms defs v)
    (names : defs.Rearranged free defs') (same : d.Rearranged free d') : d'.Conforms defs' v := by
  induction conforms generalizing d' with
  | primitive accepted =>
    cases same
    exact .primitive accepted
  | constant =>
    cases same
    exact .constant
  | object shape _ ih =>
    cases same with
    | object pairs first second inner =>
      refine .object shape ?_
      intro field' member
      obtain ⟨p, paired, rfl⟩ := List.mem_map.mp (second.mem_iff.mp member)
      exact ih (p.1, p.2.1) (first.mem_iff.mpr (List.mem_map.mpr ⟨p, paired, rfl⟩)) (inner p paired)
  | array shape _ ih =>
    cases same with
    | array inner => exact .array shape fun x member => ih x member inner
  | absent =>
    cases same
    exact .absent
  | optional _ ih =>
    cases same with
    | optional inner => exact .optional (ih inner)
  | null =>
    cases same
    exact .null
  | nullable _ ih =>
    cases same with
    | nullable inner => exact .nullable (ih inner)
  | withDefault _ ih =>
    cases same with
    | withDefault inner => exact .withDefault (ih inner)
  | alt member _ ih =>
    cases same with
    | alt pairs first second _ inner =>
      obtain ⟨p, paired, rfl⟩ := List.mem_map.mp (first.mem_iff.mp member)
      exact .alt (second.mem_iff.mpr (List.mem_map_of_mem paired)) (ih (inner p paired))
  | named _ ih =>
    cases same with
    | named inner => exact .named (ih inner)
  | ref found _ ih =>
    cases same
    obtain ⟨e, found', inner⟩ := names.lookup found
    exact .ref found' (ih inner)

/-- The entries that an object keeps come in the order of its fields. -/
theorem kept_perm {fields : List (Value × Decoder)} {pairs : List α} {field : α → Value × Decoder}
    (order : fields.Perm (pairs.map field)) (result : Value × Decoder → Value) :
    ((fields.map fun f => (f.1, result f)).filter fun entry => !entry.2.isAbsent).Perm
      ((pairs.filter fun p => !(result (field p)).isAbsent).map fun p =>
        ((field p).1, result (field p))) := by
  have permuted := (order.map fun f => (f.1, result f)).filter fun entry => !entry.2.isAbsent
  have kept : (((pairs.map field).map fun f => (f.1, result f)).filter
      fun entry => !entry.2.isAbsent) = (pairs.filter fun p => !(result (field p)).isAbsent).map
        fun p => ((field p).1, result (field p)) := by
    rw [List.map_map, List.filter_map]
    rfl
  rwa [kept] at permuted

/-- With its alternatives in their order, the same is made of a value up to the order of
entries. -/
theorem Gives.reordered {v w w' : Value} (gives : d.Gives defs v w)
    (names : defs.Rearranged False defs') (same : d.Rearranged False d')
    (gives' : d'.Gives defs' v w') : w.Reordered w' := by
  induction gives generalizing d' w' with
  | primitive accepted =>
    cases same
    cases gives' with
    | primitive accepted' =>
      rw [accepted] at accepted'
      cases accepted'
      exact .same
  | constant =>
    cases same
    cases gives'
    exact .same
  | object result shape _ ih =>
    cases same with
    | object pairs first second inner =>
      cases gives' with
      | object result' shape' each' =>
        rw [shape] at shape'
        cases shape'
        have agree (p) (paired : p ∈ pairs) :
            (result (p.1, p.2.1)).Reordered (result' (p.1, p.2.2)) := by
          apply ih (p.1, p.2.1) (first.mem_iff.mpr (List.mem_map.mpr ⟨p, paired, rfl⟩))
            (inner p paired)
          exact each' (p.1, p.2.2) (second.mem_iff.mpr (List.mem_map.mpr ⟨p, paired, rfl⟩))
        have kept : (pairs.filter fun p => !(result' (p.1, p.2.2)).isAbsent) =
            pairs.filter fun p => !(result (p.1, p.2.1)).isAbsent := by
          apply List.filter_congr
          intro p paired
          rw [(agree p paired).isAbsent_eq]
        refine .mapping ((pairs.filter fun p => !(result (p.1, p.2.1)).isAbsent).map fun p =>
          (p.1, result (p.1, p.2.1), result' (p.1, p.2.2))) ?_ ?_ ?_
        · rw [List.map_map]
          exact kept_perm first result
        · rw [List.map_map, ← kept]
          exact kept_perm second result'
        · intro e member
          obtain ⟨p, paired, rfl⟩ := List.mem_map.mp member
          exact agree p (List.mem_filter.mp paired).1
  | @array items item v result shape _ ih =>
    cases same with
    | array inner =>
      cases gives' with
      | array result' shape' each' =>
        rw [shape] at shape'
        cases shape'
        have elements : ∀ p ∈ items.zipIdx.map fun x => (result x, result' x),
            p.1.Reordered p.2 := by
          intro p member
          obtain ⟨x, inside, rfl⟩ := List.mem_map.mp member
          exact ih x inside inner (each' x inside)
        have lists := Value.Reordered.list _ elements
        rwa [List.map_map, List.map_map] at lists
  | absent =>
    cases same
    cases gives' with
    | absent => exact .same
    | optional present => cases present
  | optional present _ ih =>
    cases same with
    | optional inner =>
      cases gives' with
      | absent => cases present
      | optional _ gives' => exact ih inner gives'
  | null =>
    cases same
    cases gives' with
    | null => exact .same
    | nullable present => cases present
  | nullable present _ ih =>
    cases same with
    | nullable inner =>
      cases gives' with
      | null => cases present
      | nullable _ gives' => exact ih inner gives'
  | withDefault _ ih =>
    cases same with
    | withDefault inner =>
      cases gives' with
      | withDefault gives' =>
        have reordered := ih inner gives'
        rw [reordered.isPresent_eq]
        split
        · exact reordered
        · exact .same
  | @alt option v w options i found before gives ih =>
    cases same with
    | alt pairs _ _ fixed inner =>
      cases gives' with
      | @alt option' _ _ _ i' found' before' gives' =>
        obtain ⟨rfl, rfl⟩ := fixed id
        rw [List.getElem?_map, Option.map_eq_some_iff] at found found'
        obtain ⟨p, at_i, rfl⟩ := found
        obtain ⟨p', at_i', rfl⟩ := found'
        have paired := inner p (List.mem_of_getElem? at_i)
        have paired' := inner p' (List.mem_of_getElem? at_i')
        -- an alternative that the value conforms to cannot come before the one taken
        rcases Nat.lt_trichotomy i i' with earlier | rfl | later
        · refine absurd (gives.conforms.rearranged names paired) (before' i earlier p.2 ?_)
          rw [List.getElem?_map, at_i]
          rfl
        · rw [at_i] at at_i'
          cases at_i'
          exact ih paired gives'
        · refine absurd (gives'.conforms.rearranged names.symm paired'.symm)
            (before i' later p'.1 ?_)
          rw [List.getElem?_map, at_i']
          rfl
  | named _ ih =>
    cases same with
    | named inner =>
      cases gives' with
      | named gives' => exact ih inner gives'
  | ref found _ ih =>
    cases same
    cases gives' with
    | ref found' gives' =>
      obtain ⟨e, found'', inner⟩ := names.lookup found
      rw [found'] at found''
      cases found''
      exact ih inner gives'

theorem EndsIn.gives {config : Config} {v w : Value}
    (within : defs.Everywhere fun e => e.isStructural = true)
    (everywhere : d.Everywhere fun e => e.isStructural = true)
    (accepted : d.EndsIn defs config v (.ok w)) : d.Gives defs v w := by
  obtain ⟨enough, same⟩ := accepted
  have ended := same enough (Nat.le_refl enough)
  rw [run, Run.outcome_announced] at ended
  exact (runAt_decides within everywhere enough).gives v _ w ended

/-- Without limits, and on a value that can be written, a decoder of a guarded grammar
accepts just what conforms and refuses all else with a mismatch. So no order of fields and
of alternatives changes what is accepted, and no order of fields changes what is made of it
but for the order of entries. -/
theorem acceptance_is_conformance {config : Config} {v : Value} (guarded : defs.Guarded)
    (within : defs.Everywhere fun e => e.isGrammatical defs = true)
    (everywhere : d.Everywhere fun e => e.isGrammatical defs = true)
    (free : config.limits = none) (writable : v.isWritable = true) :
    ((∃ w, d.EndsIn defs config v (.ok w)) ↔ d.Conforms defs v) ∧
      (¬d.Conforms defs v →
        ∃ base path, d.EndsIn defs config v (.error (.fault (.located .mismatch base path)))) ∧
      (∀ defs' d', defs.Rearranged True defs' → d.Rearranged True d' →
        ((∃ w, d'.EndsIn defs' config v (.ok w)) ↔ ∃ w, d.EndsIn defs config v (.ok w))) ∧
      ∀ defs' d' w w', defs.Rearranged False defs' → d.Rearranged False d' →
        d.EndsIn defs config v (.ok w) → d'.EndsIn defs' config v (.ok w') → w.Reordered w' := by
  obtain ⟨accepts, refuses⟩ := endsIn_ok_iff_conforms guarded within everywhere free writable
  have grammatical {free : Prop} {defs' : Definitions} (names : defs.Rearranged free defs')
      {e e' : Decoder} (same : e.Rearranged free e')
      (inside : e.Everywhere fun e => e.isGrammatical defs = true) :
      e'.Everywhere fun e => e.isGrammatical defs' = true :=
    inside.rearranged (fun _ _ same => same.isGrammatical names) same
  have definitions {free : Prop} {defs' : Definitions} (names : defs.Rearranged free defs') :
      defs'.Everywhere fun e => e.isGrammatical defs' = true := by
    obtain ⟨pairs, rfl, rfl, inner⟩ := id names
    intro entry member
    obtain ⟨p, paired, rfl⟩ := List.mem_map.mp member
    exact grammatical names (inner p paired) (within _ (List.mem_map.mpr ⟨p, paired, rfl⟩))
  refine ⟨accepts, refuses, ?_, ?_⟩
  · intro defs' d' names same
    obtain ⟨accepts', _⟩ := endsIn_ok_iff_conforms (guarded.rearranged names)
      (definitions names) (grammatical names same everywhere) free writable
    rw [accepts, accepts']
    exact ⟨fun conforms => conforms.rearranged names.symm same.symm,
      fun conforms => conforms.rearranged names same⟩
  · intro defs' d' w w' names same accepted accepted'
    have structural {defs : Definitions} (e : Decoder) (inside : e.isGrammatical defs = true) :=
      isStructural_of_isGrammatical inside
    have gives := accepted.gives (within.imp structural) (everywhere.imp structural)
    have gives' := accepted'.gives ((definitions names).imp structural)
      ((grammatical names same everywhere).imp structural)
    exact gives.reordered names same gives'

/-- A recursive object, and the same with its fields and its alternatives the other way
round. -/
theorem acceptance_is_conformance_tree :
    let kids : Decoder := .optional (.array (.ref "tree"))
    let number : Decoder := .primitive .number
    let string : Decoder := .primitive .string
    let defs : Definitions :=
      [("tree", .object [(.text "kids", kids), (.text "id", .alt [string, number])])]
    let defs' : Definitions :=
      [("tree", .object [(.text "id", .alt [number, string]), (.text "kids", kids)])]
    let v : Value := .mapping .plain [(.text "id", .text "x"),
      (.text "kids", .tuple [.mapping .ordered [(.text "id", .text "y")]])]
    defs.Guarded ∧ defs.Rearranged True defs' ∧ v.isWritable = true ∧
      (∃ w, (ref "tree").EndsIn defs ⟨none, none⟩ v (.ok w)) ∧
      ∃ w, (ref "tree").EndsIn defs' ⟨none, none⟩ v (.ok w) := by
  intro kids number string defs defs' v
  have guarded : defs.Guarded := Definitions.guarded_of_descends (by decide)
  have within : defs.Everywhere fun e => e.isGrammatical defs = true := by decide
  have everywhere : (ref "tree").Everywhere fun e => e.isGrammatical defs = true := by decide
  have structural : kids.Everywhere fun e => e.isStructural = true := by decide
  have alternatives : (alt [string, number]).Rearranged True (alt [number, string]) := by
    refine .alt [(string, string), (number, number)] (.refl _) (.swap _ _ _) (absurd trivial) ?_
    simp only [List.forall_mem_cons]
    exact ⟨.primitive, .primitive, List.forall_mem_nil _⟩
  have names : defs.Rearranged True defs' := by
    refine ⟨[("tree", _, _)], rfl, rfl, List.forall_mem_singleton.mpr ?_⟩
    refine .object [(.text "kids", kids, kids),
      (.text "id", .alt [string, number], .alt [number, string])] (.refl _) (.swap _ _ _) ?_
    simp only [List.forall_mem_cons]
    exact ⟨rearranged_self structural, alternatives, List.forall_mem_nil _⟩
  have node (kind : MappingKind) (s : String) (entries : List (Value × Value))
      (name : Value.lookup (.text "id") entries = .text s)
      (rest : kids.Conforms defs (Value.lookup (.text "kids") entries)) :
      (ref "tree").Conforms defs (.mapping kind entries) := by
    refine .ref rfl (.object rfl ?_)
    simp only [List.forall_mem_cons]
    refine ⟨rest, ?_, List.forall_mem_nil _⟩
    rw [name]
    exact .alt List.mem_cons_self (.primitive rfl)
  have leaf : (ref "tree").Conforms defs (.mapping .ordered [(.text "id", .text "y")]) := by
    have missing : Value.lookup (.text "kids") [(.text "id", .text "y")] = .absent := by cbv
    refine node _ "y" _ (by cbv) ?_
    rw [missing]
    exact .absent
  have conforms : (ref "tree").Conforms defs v := by
    have found : Value.lookup (.text "kids") [(.text "id", .text "x"),
        (.text "kids", .tuple [.mapping .ordered [(.text "id", .text "y")]])] =
          .tuple [.mapping .ordered [(.text "id", .text "y")]] := by cbv
    refine node _ "x" _ (by cbv) ?_
    rw [found]
    exact .optional (.array rfl (List.forall_mem_singleton.mpr leaf))
  have free : (⟨none, none⟩ : Config).limits = none := rfl
  have writable : v.isWritable = true := by decide
  obtain ⟨accepts, _, rearranged, _⟩ :=
    acceptance_is_conformance guarded within everywhere free writable
  have accepted := accepts.mpr conforms
  exact ⟨guarded, names, writable, accepted, (rearranged defs' _ names .ref).mpr accepted⟩

/-- The text decoder cannot word its refusal of an integer too long to be written, and no
other alternative takes over from what it raises instead. -/
theorem run_alt_of_unwritable {n : Int} (unwritable : (Value.int n).isWritable = false)
    (rest : List Decoder) (defs : Definitions) (fuel : Nat) (config : Config) :
    ((alt (.primitive .string :: rest)).run defs fuel config (.int n)).outcome =
      .error (.fault .unwritableInteger) := by
  have first : (primitive .string).action (defs.resolve fuel) (.int n) (.root config) =
      ⟨[.entered (.primitive .string) (.root config) (.int n), .raised .unwritableInteger],
        .error (.fault .unwritableInteger)⟩ := by
    have refused : Primitive.string.accept (.int n) = .error (notAString (.int n)) := rfl
    rw [action_eq_run]
    simp only [body, Action.primitive, refused, Fault.refused, unwritable]
    rfl
  have firm : ((primitive .string).action (defs.resolve fuel) (.int n) (.root config)).IsFirm := by
    intro m ended
    rw [first] at ended
    cases ended
    rfl
  rw [run, Run.outcome_announced, runAt, action_eq_run]
  simp only [body, Action.alt, List.map_cons, Action.alternatives_cons]
  rw [Run.rescue_of_firm firm]
  exact congrArg Run.outcome first

/-- An integer too long to be written is a number, but a text or a number is not read from it. -/
theorem overlong_integer_not_accepted :
    let d : Decoder := .alt [.primitive .string, .primitive .number]
    let v : Value := .int (Nat.pow 10 Text.longestNumeral)
    d.Conforms [] v ∧ d.EndsIn [] ⟨none, none⟩ v (.error (.fault .unwritableInteger)) ∧
      ¬∃ w, d.EndsIn [] ⟨none, none⟩ v (.ok w) := by
  intro d v
  have unwritable : v.isWritable = false := by
    rw [Bool.eq_false_iff, ne_eq, Value.isWritable_int_iff, Int.natAbs_natCast]
    exact Nat.lt_irrefl _
  have conforms : d.Conforms [] v :=
    .alt (List.mem_cons_of_mem _ List.mem_cons_self) (.primitive rfl)
  have faults : d.EndsIn [] ⟨none, none⟩ v (.error (.fault .unwritableInteger)) :=
    ⟨0, fun fuel _ => run_alt_of_unwritable unwritable _ _ fuel _⟩
  refine ⟨conforms, faults, ?_⟩
  rintro ⟨w, accepted⟩
  cases accepted.unique faults

end Decoder

end Intake
