import Intake.Proofs.Choice
import Intake.Proofs.Location
import Intake.Proofs.Outcome
import Intake.Proofs.Termination

/-! What decoders accept, said without running them. `Conforms` is the grammar of a decoder
that follows the shape of its input, and `Gives` adds what comes out; a run that ends decides
it. -/
namespace Intake

namespace Decoder

/-- The values that a decoder describes. -/
inductive Conforms (defs : Definitions) : Decoder → Value → Prop where
  | primitive : p.accept v = .ok w → Conforms defs (.primitive p) v
  | constant : Conforms defs (.constant w) v
  | object : v.entries? = some entries →
      (∀ field ∈ fields, Conforms defs field.2 (Value.lookup field.1 entries)) →
      Conforms defs (.object fields) v
  | array : v.items? = some items → (∀ x ∈ items, Conforms defs item x) →
      Conforms defs (.array item) v
  | absent : Conforms defs (.optional of) .absent
  | optional : Conforms defs of v → Conforms defs (.optional of) v
  | null : Conforms defs (.nullable of) .null
  | nullable : Conforms defs of v → Conforms defs (.nullable of) v
  | withDefault : Conforms defs of v → Conforms defs (.withDefault of (.value instead)) v
  | alt : option ∈ options → Conforms defs option v → Conforms defs (.alt options) v
  | named : Conforms defs of v → Conforms defs (.named label of) v
  | ref : defs.lookup target = some d → Conforms defs d v → Conforms defs (.ref target) v

/-- What a decoder makes of the values that it describes. Of the alternatives that a value
conforms to the first one counts. -/
inductive Gives (defs : Definitions) : Decoder → Value → Value → Prop where
  | primitive : p.accept v = .ok w → Gives defs (.primitive p) v w
  | constant : Gives defs (.constant w) v w
  | object (result : Value × Decoder → Value) : v.entries? = some entries →
      (∀ field ∈ fields, Gives defs field.2 (Value.lookup field.1 entries) (result field)) →
      Gives defs (.object fields) v (.mapping .plain
        ((fields.map fun field => (field.1, result field)).filter fun entry => !entry.2.isAbsent))
  | array (result : Value × Nat → Value) : v.items? = some items →
      (∀ element ∈ items.zipIdx, Gives defs item element.1 (result element)) →
      Gives defs (.array item) v (.list (items.zipIdx.map result))
  | absent : Gives defs (.optional of) .absent .absent
  | optional : v.isAbsent = false → Gives defs of v w → Gives defs (.optional of) v w
  | null : Gives defs (.nullable of) .null .null
  | nullable : v.isNull = false → Gives defs of v w → Gives defs (.nullable of) v w
  | withDefault : Gives defs of v w →
      Gives defs (.withDefault of (.value instead)) v (if w.isPresent then w else instead)
  | alt {options : List Decoder} {i : Nat} : options[i]? = some option →
      (∀ j < i, ∀ earlier, options[j]? = some earlier → ¬Conforms defs earlier v) →
      Gives defs option v w → Gives defs (.alt options) v w
  | named : Gives defs of v w → Gives defs (.named label of) v w
  | ref : defs.lookup target = some d → Gives defs d v w → Gives defs (.ref target) v w

theorem Gives.conforms {defs : Definitions} {d : Decoder} {v w : Value}
    (gives : Gives defs d v w) : Conforms defs d v := by
  induction gives with
  | primitive accepted => exact .primitive accepted
  | constant => exact .constant
  | object _ shape _ ih => exact .object shape ih
  | array _ shape _ ih =>
    refine .array shape ?_
    intro x member
    obtain ⟨i, found⟩ := List.mem_iff_getElem?.mp member
    exact ih (x, i) (List.mem_zipIdx_iff_getElem?.mpr found)
  | absent => exact .absent
  | optional _ _ ih => exact .optional ih
  | null => exact .null
  | nullable _ _ ih => exact .nullable ih
  | withDefault _ ih => exact .withDefault ih
  | alt found _ _ ih => exact .alt (List.mem_of_getElem? found) ih
  | named _ ih => exact .named ih
  | ref found _ ih => exact .ref found ih

end Decoder

namespace Run

theorem isFirm_traverse {f : β → Run α} {elements : List β} (each : ∀ b ∈ elements, (f b).IsFirm) :
    (traverse f elements).IsFirm := by
  induction elements with
  | nil => exact isFirm_pure _
  | cons b rest ih =>
    rw [traverse_cons]
    apply (each b List.mem_cons_self).bind
    intro a
    apply (ih fun x member => each x (List.mem_cons_of_mem b member)).bind
    exact fun as => isFirm_pure _

end Run

theorem Context.isFirm_check (c : Context) (aspect : Aspect) (n : Int) :
    (c.check aspect n).IsFirm := by
  intro m ended
  obtain ⟨l, _, rfl⟩ := fault_check ended
  rfl

theorem Context.isFirm_arrive (c : Context) : c.arrive.IsFirm :=
  (Run.isFirm_emit _).bind fun _ => c.isFirm_check _ _

theorem Context.isFirm_count (c : Context) (size : Nat) : (c.count size).IsFirm :=
  (Run.isFirm_emit _).bind fun _ => c.isFirm_check _ _

namespace Action

variable {a : Decoder → Action} {v : Value} {c : Context}

/-- The alternative that gives the value comes after none but those that reject. -/
theorem outcome_alt_eq_ok {options : List Decoder} {w : Value}
    (given : (alt (options.map fun e => (e.name, a e)) v c).outcome = .ok w) :
    ∃ (i : Nat) (option : Decoder), options[i]? = some option ∧ (a option v c).outcome = .ok w ∧
      ∀ j < i, ∀ earlier, options[j]? = some earlier → ¬(a earlier v c).IsFirm := by
  obtain ⟨rejected, closing, chooses, whole⟩ := exists_alt_eq options
  rw [whole] at given
  cases chooses with
  | @chosen _ option _ are _ =>
    refine ⟨rejected.length, option, by simp, given, ?_⟩
    intro j lt earlier at_j
    rw [List.getElem?_append_left (by simpa using lt)] at at_j
    obtain ⟨x, among, rfl⟩ := List.mem_map.mp (List.mem_of_getElem? at_j)
    exact are.not_isFirm among
  | failed _ => cases given
  | nothing => cases given

structure Decides (defs : Definitions) (d : Decoder) (a : Action) : Prop where
  gives : ∀ v c w, (a v c).outcome = .ok w → d.Gives defs v w
  firm : ∀ v c, d.Conforms defs v → (a v c).IsFirm

variable {defs : Definitions}

theorem decides_primitive (p : Primitive) : (primitive p).Decides defs (.primitive p) where
  gives := by
    intro v c w given
    cases accepted : p.accept v with
    | error message => simp [primitive, accepted, Run.raise] at given
    | ok x =>
      simp only [primitive, accepted] at given
      cases Run.outcome_pure_eq_ok.mp given
      exact .primitive accepted
  firm := by
    intro v c conforms
    cases conforms with
    | primitive accepted =>
      simp only [primitive, accepted]
      exact Run.isFirm_pure _

theorem decides_object {fields : List (Value × Decoder)}
    (acts : ∀ field ∈ fields, (a field.2).Decides defs field.2) :
    (object (fields.map fun field => (field.1, a field.2))).Decides defs (.object fields) where
  gives := by
    intro v c w given
    obtain ⟨entries, result, shape, rfl, each⟩ := outcome_object_eq_ok.mp given
    refine .object result shape ?_
    exact fun field member => (acts field member).gives _ _ _ (each field member).2
  firm := by
    intro v c conforms
    cases conforms with
    | object shape each =>
      rw [object_of_some shape, Run.traverse_map]
      refine Run.IsFirm.bind (Run.isFirm_traverse ?_) fun _ => Run.isFirm_pure _
      intro field member
      rw [field_eq]
      apply (Context.isFirm_arrive _).bind
      intro _
      apply ((acts field member).firm _ _ (each field member)).bind
      exact fun _ => Run.isFirm_pure _

theorem decides_array {item : Decoder} {act : Action} (acts : act.Decides defs item) :
    (array act).Decides defs (.array item) where
  gives := by
    intro v c w given
    obtain ⟨items, result, shape, rfl, _, each⟩ := outcome_array_eq_ok.mp given
    refine .array result shape ?_
    exact fun element member => acts.gives _ _ _ (each element member).2
  firm := by
    intro v c conforms
    cases conforms with
    | array shape each =>
      rw [array_of_some shape]
      apply (c.isFirm_count _).bind
      intro _
      refine Run.IsFirm.bind (Run.isFirm_traverse ?_) fun _ => Run.isFirm_pure _
      intro element member
      rw [item_eq]
      apply (Context.isFirm_arrive _).bind
      exact fun _ => acts.firm _ _ (each _ (List.fst_mem_of_mem_zipIdx member))

theorem decides_exempt {d of : Decoder} {act : Action} {passes : Value → Bool}
    (acts : act.Decides defs of) (passed : ∀ v, passes v = true → d.Gives defs v v)
    (others : ∀ v w, passes v = false → of.Gives defs v w → d.Gives defs v w)
    (conforms : ∀ v, d.Conforms defs v → passes v = true ∨ of.Conforms defs v) :
    (exempt passes act).Decides defs d where
  gives := by
    intro v c w given
    rcases outcome_exempt_eq_ok.mp given with ⟨passes, rfl⟩ | ⟨kept, given⟩
    · exact passed w passes
    · exact others v w kept (acts.gives v c w given)
  firm := by
    intro v c described
    unfold exempt
    split
    · exact Run.isFirm_pure v
    next kept =>
      rcases conforms v described with passes | inner
      · exact absurd passes kept
      · exact acts.firm v c inner

theorem decides_optional {of : Decoder} {act : Action} (acts : act.Decides defs of) :
    (optional act).Decides defs (.optional of) := by
  rw [optional_eq_exempt]
  refine decides_exempt acts ?_ (fun _ _ => .optional) ?_
  · intro v absent
    cases v <;> cases absent
    exact .absent
  · intro v conforms
    cases conforms with
    | absent => exact .inl rfl
    | optional conforms => exact .inr conforms

theorem decides_nullable {of : Decoder} {act : Action} (acts : act.Decides defs of) :
    (nullable act).Decides defs (.nullable of) := by
  rw [nullable_eq_exempt]
  refine decides_exempt acts ?_ (fun _ _ => .nullable) ?_
  · intro v null
    cases v <;> cases null
    exact .null
  · intro v conforms
    cases conforms with
    | null => exact .inl rfl
    | nullable conforms => exact .inr conforms

theorem decides_withDefault {of : Decoder} {act : Action} (acts : act.Decides defs of)
    (instead : Value) :
    (withDefault act (Run.pure instead)).Decides defs (.withDefault of (.value instead)) where
  gives := by
    intro v c w given
    obtain ⟨x, gives, last⟩ := Run.outcome_bind_eq_ok.mp given
    have chosen : w = if x.isPresent then x else instead := by
      cases present : x.isPresent <;> simp only [present] at last <;>
        exact Run.outcome_pure_eq_ok.mp last
    rw [chosen]
    exact .withDefault (acts.gives v c x gives)
  firm := by
    intro v c conforms
    cases conforms with
    | withDefault conforms =>
      apply (acts.firm v c conforms).bind
      intro x
      cases x.isPresent <;> exact Run.isFirm_pure _

theorem decides_alt {options : List Decoder} (acts : ∀ e ∈ options, (a e).Decides defs e) :
    (alt (options.map fun e => (e.name, a e))).Decides defs (.alt options) where
  gives := by
    intro v c w given
    obtain ⟨i, option, found, gives, before⟩ := outcome_alt_eq_ok given
    refine .alt found ?_ ((acts option (List.mem_of_getElem? found)).gives v c w gives)
    intro j lt earlier at_j conforms
    exact before j lt earlier at_j ((acts earlier (List.mem_of_getElem? at_j)).firm v c conforms)
  firm := by
    intro v c conforms
    cases conforms with
    | alt member conforms =>
      obtain ⟨rejected, closing, chooses, whole⟩ := exists_alt_eq options
      rw [whole]
      exact chooses.isFirm member ((acts _ member).firm v c conforms)

end Action

namespace Decoder

variable {defs : Definitions} {d : Decoder}

theorem body_decides {resolve : String → Action} (structural : d.isStructural = true)
    (references : ∀ name, d = .ref name → (resolve name).Decides defs (.ref name))
    (parts : ∀ e ∈ d.parts, (e.action resolve).Decides defs e) :
    (d.body resolve).Decides defs d := by
  cases d with
  | primitive p => exact Action.decides_primitive p
  | constant w =>
    refine ⟨?_, fun _ _ _ => Run.isFirm_pure w⟩
    intro v c x given
    cases Run.outcome_pure_eq_ok.mp given
    exact .constant
  | object fields =>
    exact Action.decides_object fun field member => parts field.2 (List.mem_map_of_mem member)
  | array item => exact Action.decides_array (parts item (List.mem_singleton_self _))
  | optional of => exact Action.decides_optional (parts of (List.mem_singleton_self _))
  | nullable of => exact Action.decides_nullable (parts of (List.mem_singleton_self _))
  | withDefault of instead =>
    cases instead with
    | value w => exact Action.decides_withDefault (parts of (List.mem_singleton_self _)) w
    | supplier f => cases structural
  | alt options => exact Action.decides_alt parts
  | named label of =>
    have inner := parts of (List.mem_singleton_self _)
    refine ⟨fun v c w given => .named (inner.gives v c w given), ?_⟩
    intro v c conforms
    cases conforms with
    | named conforms => exact inner.firm v c conforms
  | ref name => exact references name rfl
  | map | lift | compose | preCondition | postCondition | fail | failWith | inspect | push |
    forbid | broken => cases structural

theorem runAt_decides (within : defs.Everywhere fun e => e.isStructural = true)
    (everywhere : d.Everywhere fun e => e.isStructural = true) (fuel : Nat) :
    (d.runAt defs fuel).Decides defs d := by
  refine runAt_induction_on (P := fun d a => a.Decides defs d)
    (R := fun name a => a.Decides defs (.ref name)) ?_ ?_ ?_ ?_ within fuel everywhere
  · exact fun _ => ⟨fun _ _ _ => nofun, fun _ _ _ => nofun⟩
  · intro name _ _
    refine ⟨fun _ _ _ => nofun, ?_⟩
    intro v c _ m ended
    cases ended
    rfl
  · intro name e act found decides
    refine ⟨fun v c w given => .ref found (decides.gives v c w given), ?_⟩
    intro v c conforms
    cases conforms with
    | ref found' conforms =>
      rw [found] at found'
      cases found'
      exact decides.firm v c conforms
  · intro fuel references e structural parts
    have decides : (e.body (defs.resolve fuel)).Decides defs e :=
      body_decides structural (fun name eq => references name (eq ▸ structural)) parts
    constructor
    · intro v c w given
      rw [runAt, action_eq_run] at given
      exact decides.gives v c w given
    · intro v c conforms m ended
      rw [runAt, action_eq_run] at ended
      exact decides.firm v c conforms m ended

end Decoder

namespace Value

theorem lookup_isWritable {entries : List (Value × Value)} (key : Value)
    (writable : ∀ entry ∈ entries, entry.1.isWritable = true ∧ entry.2.isWritable = true) :
    (lookup key entries).isWritable = true := by
  unfold lookup
  induction entries with
  | nil => rfl
  | cons entry rest ih =>
    obtain ⟨k, v⟩ := entry
    have first := writable _ List.mem_cons_self
    have others := ih fun entry member => writable entry (List.mem_cons_of_mem _ member)
    unfold find?
    split
    · exact first.2
    · exact others

theorem Leads.isWritable {fragment v w : Value} (leads : Leads fragment v w)
    (writable : v.isWritable = true) : w.isWritable = true := by
  cases leads with
  | property key shape =>
    apply lookup_isWritable
    cases v <;> cases shape
    exact areWritableEntries_iff.mp writable
  | element index shape found =>
    have inside := List.mem_of_getElem? found
    cases v <;> cases shape
    all_goals exact areWritable_iff.mp writable w inside

/-- What is found inside a value that can be written can be written. -/
theorem Reads.isWritable {path : List Value} {v w : Value} (reads : Reads path v w)
    (writable : v.isWritable = true) : w.isWritable = true := by
  induction reads with
  | here => exact writable
  | step leads _ ih => exact ih (leads.isWritable writable)

end Value

namespace Decoder

def EndsIn (d : Decoder) (defs : Definitions) (config : Config) (v : Value)
    (outcome : Except Stop Value) : Prop :=
  ∃ enough, ∀ fuel, enough ≤ fuel → (d.run defs fuel config v).outcome = outcome

theorem EndsIn.unique {d : Decoder} {defs : Definitions} {config : Config} {v : Value}
    {outcome outcome' : Except Stop Value} (first : d.EndsIn defs config v outcome)
    (second : d.EndsIn defs config v outcome') : outcome = outcome' := by
  obtain ⟨enough, same⟩ := first
  obtain ⟨enough', same'⟩ := second
  rw [← same (max enough enough') (by omega), same' (max enough enough') (by omega)]

/-- Built from the decoders that follow the shape of their input, where every name that is
referred to is defined. -/
def isGrammatical (defs : Definitions) (d : Decoder) : Bool :=
  d.isStructural && d.isSelfContained defs

variable {defs : Definitions} {d : Decoder}

theorem isStructural_of_isGrammatical (grammatical : d.isGrammatical defs = true) :
    d.isStructural = true := (Bool.and_eq_true_iff.mp grammatical).1

theorem isStaged_of_isStructural (structural : d.isStructural = true) : d.isStaged = true := by
  cases d with
  | compose => cases structural
  | _ => rfl

/-- Every run of a grammar comes to an end: in a value as the grammar gives it, in a
mismatch on a value that does not conform, or in the text of an integer that has none. -/
theorem endsIn_of_guarded {config : Config} (guarded : defs.Guarded)
    (within : defs.Everywhere fun e => e.isGrammatical defs = true)
    (everywhere : d.Everywhere fun e => e.isGrammatical defs = true)
    (free : config.limits = none) (v : Value) :
    (∃ w, d.EndsIn defs config v (.ok w) ∧ d.Gives defs v w) ∨
      (∃ base path, d.EndsIn defs config v (.error (.fault (.located .mismatch base path))) ∧
        ¬d.Conforms defs v) ∨
      ∃ m, d.EndsIn defs config v (.error (.fault m)) ∧ v.isWritable = false := by
  have structured := within.imp fun _ => isStructural_of_isGrammatical
  have structural := everywhere.imp fun _ => isStructural_of_isGrammatical
  obtain ⟨enough, final, ends, same⟩ := runAt_settles_of_guarded guarded
    (structured.imp fun _ => isStaged_of_isStructural)
    (structural.imp fun _ => isStaged_of_isStructural) v (.root config)
  have settled : d.EndsIn defs config v final.outcome := by
    refine ⟨enough, ?_⟩
    intro fuel le
    rw [run, Run.outcome_announced]
    exact congrArg Run.outcome (same fuel le)
  have decides := runAt_decides structured structural enough
  have last : d.runAt defs enough v (.root config) = final := same enough (Nat.le_refl enough)
  cases ended : final.outcome with
  | ok w =>
    rw [ended] at settled
    exact .inl ⟨w, settled, decides.gives v _ w (by rw [last, ended])⟩
  | error stop =>
    cases stop with
    | exhausted => exact absurd ended ends
    | fault m =>
      rw [ended] at settled
      have failed : (d.runAt defs enough v (.root config)).outcome = .error (.fault m) := by
        rw [last, ended]
      rcases runAt_isSelfContained
          (within.imp fun _ grammatical => (Bool.and_eq_true_iff.mp grammatical).2)
          (everywhere.imp fun _ grammatical => (Bool.and_eq_true_iff.mp grammatical).2) failed with
        ⟨base, path, rfl⟩ | ⟨limited, _⟩ | ⟨e, c, w, entered, unwritable⟩
      · refine .inr (.inl ⟨base, path, settled, ?_⟩)
        intro conforms
        have firm := decides.firm v (.root config) conforms _ failed
        cases firm
      · exact absurd free limited
      · refine .inr (.inr ⟨m, settled, ?_⟩)
        obtain ⟨_, path, reads, _⟩ := runAt_located structured structural enough v (.root config)
          (Int.le_refl 0) e c w entered
        cases writable : v.isWritable with
        | false => rfl
        | true =>
          rw [reads.isWritable writable] at unwritable
          cases unwritable

/-- A value that can be written is accepted just when it conforms, and otherwise refused with
a mismatch. -/
theorem endsIn_ok_iff_conforms {config : Config} {v : Value} (guarded : defs.Guarded)
    (within : defs.Everywhere fun e => e.isGrammatical defs = true)
    (everywhere : d.Everywhere fun e => e.isGrammatical defs = true)
    (free : config.limits = none) (writable : v.isWritable = true) :
    ((∃ w, d.EndsIn defs config v (.ok w)) ↔ d.Conforms defs v) ∧
      (¬d.Conforms defs v →
        ∃ base path, d.EndsIn defs config v (.error (.fault (.located .mismatch base path)))) := by
  rcases endsIn_of_guarded guarded within everywhere free v with
    ⟨w, ends, gives⟩ | ⟨base, path, ends, foreign⟩ | ⟨_, _, unwritable⟩
  · have conforms := gives.conforms
    exact ⟨⟨fun _ => conforms, fun _ => ⟨w, ends⟩⟩, fun foreign => absurd conforms foreign⟩
  · refine ⟨⟨?_, fun conforms => absurd conforms foreign⟩, fun _ => ⟨base, path, ends⟩⟩
    rintro ⟨w, accepted⟩
    cases accepted.unique ends
  · rw [writable] at unwritable
    cases unwritable

end Decoder

end Intake
