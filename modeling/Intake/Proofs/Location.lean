import Intake.Proofs.Events
import Intake.Proofs.Provenance

/-! Paths tell the truth about the input. Read as look-ups, the fragments pushed so far lead to
the very value that a structural decoder is entered on. -/
namespace Intake

/-- A fragment read as one look-up. -/
inductive Value.Leads : Value → Value → Value → Prop where
  | property (key : String) : v.entries? = some entries →
      Leads (.text ("object property " ++ key)) v (Value.lookup (.text key) entries)
  | element (index : Nat) : v.items? = some items → items[index]? = some w →
      Leads (.text ("array at index " ++ toString index)) v w

/-- Fragments, outermost first, read as look-ups one after another. -/
inductive Value.Reads : List Value → Value → Value → Prop where
  | here : Reads [] v v
  | step : Leads fragment u v → Reads path v w → Reads (fragment :: path) u w

namespace Value

theorem property_ne_element (key rest : String) :
    "object property " ++ key ≠ "array at index " ++ rest := by
  intro same
  have heads := congrArg (fun s => s.toList.head?) same
  simp [String.toList_append] at heads

theorem index_injective {i j : Nat} (same : toString i = toString j) : i = j := by
  have digits := congrArg String.toList same
  simp only [Nat.toString_eq_ofList_toDigits, String.toList_ofList] at digits
  calc
    i = Nat.ofDigitChars 10 (Nat.toDigits 10 i) 0 := Nat.ofDigitChars_ten_toDigits.symm
    _ = Nat.ofDigitChars 10 (Nat.toDigits 10 j) 0 := by rw [digits]
    _ = j := Nat.ofDigitChars_ten_toDigits

/-- A fragment leads to one value at most. -/
theorem Leads.unique {fragment v w w' : Value} (first : Leads fragment v w)
    (second : Leads fragment v w') : w' = w := by
  cases first with
  | property key shape =>
    generalize same : Value.text ("object property " ++ key) = fragment at second
    cases second with
    | property key' shape' =>
      obtain rfl : key = key' := (String.append_right_inj _).mp (Value.text.inj same)
      rw [shape] at shape'
      cases shape'
      rfl
    | element => exact absurd (Value.text.inj same) (property_ne_element _ _)
  | element index shape found =>
    generalize same : Value.text ("array at index " ++ toString index) = fragment at second
    cases second with
    | property => exact absurd (Value.text.inj same).symm (property_ne_element _ _)
    | element index' shape' found' =>
      obtain rfl : index = index' :=
        index_injective ((String.append_right_inj _).mp (Value.text.inj same))
      rw [shape] at shape'
      cases shape'
      rw [found] at found'
      cases found'
      rfl

theorem Reads.unique {path : List Value} {v w w' : Value} (first : Reads path v w)
    (second : Reads path v w') : w' = w := by
  induction first with
  | here =>
    cases second
    rfl
  | step leads _ ih =>
    cases second with
    | step leads' rest =>
      cases leads.unique leads'
      exact ih rest

end Value

/-- A decoder at the inner context stands at the value to which the fragments pushed
since the outer context lead. -/
def Context.Locates (c : Context) (v : Value) (c' : Context) (w : Value) : Prop :=
  0 ≤ c'.depth ∧ ∃ path, Value.Reads path v w ∧ c'.fragments = path.reverse ++ c.fragments

namespace Context

variable {c : Context} {v : Value}

theorem Locates.here (counted : 0 ≤ c.depth) : c.Locates v c v := ⟨counted, [], .here, rfl⟩

/-- What is located from one look-up further in is located from the outside. -/
theorem Locates.step {fragment : String} {u w : Value} {c' : Context} (counted : 0 ≤ c.depth)
    (leads : Value.Leads (.text fragment) u v)
    (inner : (c.push (.text fragment)).Locates v c' w) : c.Locates u c' w := by
  obtain ⟨deeper, path, reads, fragments⟩ := inner
  refine ⟨deeper, .text fragment :: path, .step leads reads, ?_⟩
  rw [fragments, fragments_push c _ counted]
  simp

end Context

def Action.Located (a : Action) : Prop :=
  ∀ v c, 0 ≤ c.depth → ∀ d c' w, .entered d c' w ∈ (a v c).journal → c.Locates v c' w

namespace Action

theorem located_of_quiet {a : Action} (quiet : ∀ v c d c' w, .entered d c' w ∉ (a v c).journal) :
    a.Located := fun v c _ d c' w entered => absurd entered (quiet v c d c' w)

theorem located_primitive (p : Primitive) : (primitive p).Located := by
  apply located_of_quiet
  intro v c d c' w entered
  unfold primitive at entered
  cases accepted : p.accept v with
  | ok x => simp [accepted, Run.pure] at entered
  | error message => simp [accepted, Run.raise] at entered

theorem located_object {fields : List (Value × Action)}
    (names : ∀ field ∈ fields, field.1.text?.isSome = true)
    (acts : ∀ field ∈ fields, field.2.Located) : (object fields).Located := by
  intro v c counted d c' w entered
  cases shape : v.entries? with
  | none =>
    rw [object_of_none shape] at entered
    cases List.mem_singleton.mp entered
  | some entries =>
    rw [object_of_some shape] at entered
    rcases Run.mem_journal_bind entered with entered | ⟨_, nothing⟩
    · obtain ⟨⟨name, act⟩, inside, entered⟩ := Run.mem_journal_traverse entered
      have deeper : 0 ≤ (c.push (.text (fieldFragment name))).depth := by
        rw [Context.depth_push]
        omega
      have inner := acts _ inside _ _ deeper d c' w (entered_of_field entered)
      have named := names _ inside
      cases name with
      | text key => exact inner.step counted (.property key shape)
      | _ => cases named
    · cases nothing

theorem located_array {act : Action} (acts : act.Located) : (array act).Located := by
  intro v c counted d c' w entered
  cases shape : v.items? with
  | none =>
    rw [array_of_none shape] at entered
    cases List.mem_singleton.mp entered
  | some items =>
    rw [array_of_some shape] at entered
    rcases Run.mem_journal_bind entered with counts | ⟨_, entered⟩
    · exact absurd counts Context.not_entered_count
    rcases Run.mem_journal_bind entered with entered | ⟨_, nothing⟩
    · obtain ⟨⟨x, index⟩, inside, entered⟩ := Run.mem_journal_traverse entered
      have deeper : 0 ≤ (c.push (.text (itemFragment index))).depth := by
        rw [Context.depth_push]
        omega
      have arrived := entered_of_item entered
      have inner := acts x _ deeper d c' w arrived
      have found : items[index]? = some x := List.mem_zipIdx_iff_getElem?.mp inside
      exact inner.step counted (.element index shape found)
    · cases nothing

theorem located_optional {act : Action} (acts : act.Located) : (optional act).Located := by
  intro v c counted d c' w entered
  unfold optional at entered
  cases absent : v.isAbsent with
  | true => simp [absent, Run.pure] at entered
  | false => exact acts v c counted d c' w (by simpa [absent] using entered)

theorem located_nullable {act : Action} (acts : act.Located) : (nullable act).Located := by
  intro v c counted d c' w entered
  unfold nullable at entered
  cases null : v.isNull with
  | true => simp [null, Run.pure] at entered
  | false => exact acts v c counted d c' w (by simpa [null] using entered)

theorem located_withDefault {act : Action} (acts : act.Located) (x : Value) :
    (withDefault act (Run.pure x)).Located := by
  intro v c counted d c' w entered
  rcases Run.mem_journal_bind entered with entered | ⟨y, closing⟩
  · exact acts v c counted d c' w entered
  · cases present : y.isPresent <;> simp only [present] at closing <;> cases closing

theorem located_alt {options : List (String × Action)}
    (acts : ∀ option ∈ options, option.2.Located) : (alt options).Located := by
  intro v c counted d c' w entered
  obtain ⟨option, inside, entered⟩ := entered_of_alternatives entered
  exact acts option inside v c counted d c' w entered

end Action

namespace Decoder

/-- Built from the decoders that follow the shape of their input, with texts for field
names and no function. -/
def isStructural : Decoder → Bool
  | .object fields => fields.all fun field => field.1.text?.isSome
  | .primitive _ | .constant _ | .array _ | .optional _ | .nullable _ |
    .withDefault _ (.value _) | .alt _ | .named _ _ | .ref _ => true
  | _ => false

theorem body_located {resolve : String → Action} {d : Decoder} (structural : d.isStructural = true)
    (references : ∀ name, d = .ref name → (resolve name).Located)
    (parts : ∀ e ∈ d.parts, (e.action resolve).Located) : (d.body resolve).Located := by
  cases d with
  | primitive p => exact Action.located_primitive p
  | constant w => exact Action.located_of_quiet fun _ _ _ _ _ => List.not_mem_nil
  | object fields =>
    apply Action.located_object
    · intro field inside
      obtain ⟨named, member, rfl⟩ := List.mem_map.mp inside
      exact List.all_eq_true.mp structural named member
    · intro field inside
      obtain ⟨named, member, rfl⟩ := List.mem_map.mp inside
      exact parts named.2 (List.mem_map_of_mem member)
  | array item => exact Action.located_array (parts item (List.mem_singleton_self _))
  | optional of => exact Action.located_optional (parts of (List.mem_singleton_self _))
  | nullable of => exact Action.located_nullable (parts of (List.mem_singleton_self _))
  | withDefault of default =>
    cases default with
    | value w => exact Action.located_withDefault (parts of (List.mem_singleton_self _)) w
    | supplier f => cases structural
  | alt options =>
    apply Action.located_alt
    intro option inside
    obtain ⟨d, member, rfl⟩ := List.mem_map.mp inside
    exact parts d member
  | named label of => exact parts of (List.mem_singleton_self _)
  | ref name => exact references name rfl
  | map | lift | compose | preCondition | postCondition | fail | failWith | inspect | push |
    forbid | broken => cases structural

/-- Wherever a structural decoder enters another, the path there leads to the value
entered. -/
theorem runAt_located {defs : Definitions} {d : Decoder}
    (within : defs.Everywhere fun e => e.isStructural = true)
    (everywhere : d.Everywhere fun e => e.isStructural = true) (fuel : Nat) :
    (d.runAt defs fuel).Located := by
  refine runAt_induction (P := Action.Located) ?_ ?_ ?_ within fuel everywhere
  · exact Action.located_of_quiet fun _ _ _ _ _ => List.not_mem_nil
  · intro name _ _
    apply Action.located_of_quiet
    intro v c d c' w entered
    cases List.mem_singleton.mp entered
  · intro fuel references d structural parts v c counted e c' w entered
    rw [runAt, action_eq_run] at entered
    rcases List.mem_cons.mp entered with same | entered
    · cases same
      exact .here counted
    · exact body_located structural (fun name eq => references name (eq ▸ structural)) parts
        v c counted e c' w entered

end Decoder

/-- A message of the library about a value that is not as the message demands. -/
inductive Violates : String → Value → Prop where
  | string : (∀ s, w ≠ .text s) → Violates (refusal w "a string") w
  | number : (∀ n, w ≠ .int n) → (∀ x, w ≠ .float x) → Violates (refusal w "a number") w
  | boolean : (∀ b, w ≠ .bool b) → Violates (refusal w "a boolean") w
  | object : (∀ kind entries, w ≠ .mapping kind entries) → Violates (refusal w "an object") w
  | array : (∀ items, w ≠ .list items) → (∀ items, w ≠ .tuple items) →
      Violates (refusal w "an array") w
  | dateTime : Moment.accept? s = none → Violates (refusal (.text s) "a date and time") (.text s)
  | url : Url.isValid s = false → Violates (invalidUrl s) (.text s)

theorem Primitive.violates_of_accept {p : Primitive} {w : Value} {message : String}
    (refused : p.accept w = .error message) : Violates message w := by
  cases p with
  | string =>
    cases w <;> cases refused
    all_goals exact .string nofun
  | number =>
    cases w <;> cases refused
    all_goals exact .number nofun nofun
  | boolean =>
    cases w <;> cases refused
    all_goals exact .boolean nofun
  | record =>
    cases w <;> cases refused
    all_goals exact .object nofun
  | dateTime =>
    cases w with
    | text s =>
      rw [accept_dateTime_text] at refused
      split at refused
      · cases refused
      next unread =>
        cases refused
        exact .dateTime unread
    | _ =>
      cases refused
      exact .string nofun
  | url =>
    cases w with
    | text s =>
      rw [accept_url_text] at refused
      split at refused
      · cases refused
      next invalid =>
        cases refused
        exact .url (Bool.eq_false_iff.mpr invalid)
    | _ =>
      cases refused
      exact .string nofun
  | identity | unknown => cases refused

namespace Decoder

theorem isStructural_callbacks {d : Decoder} (structural : d.isStructural = true) :
    d.callbacks = [] := by
  cases d with
  | withDefault of default =>
    cases default with
    | value _ => rfl
    | supplier _ => cases structural
  | map | lift | preCondition | postCondition | failWith => cases structural
  | _ => rfl

theorem refused_eq_mismatch {w : Value} {message base : String} {c : Context} {path : List Value}
    (fault : Fault.refused w message c = .located .mismatch base path) :
    message = base ∧ c.fragments = path := by
  unfold Fault.refused at fault
  split at fault
  · cases fault
    exact ⟨rfl, rfl⟩
  · cases fault

/-- What a structural decoder raises as a mismatch is true of the value it stands at. -/
theorem isStructural_raises {d : Decoder} {w : Value} {fault : Context → Fault} {c : Context}
    {base : String} {path : List Value} (structural : d.isStructural = true)
    (raises : d.Raises w fault) (mismatch : fault c = .located .mismatch base path) :
    c.fragments = path ∧ (Violates base w ∨ d = .alt [] ∧ base = unexpectedData) := by
  cases raises with
  | primitive refused =>
    obtain ⟨rfl, located⟩ := refused_eq_mismatch mismatch
    exact ⟨located, .inl (Primitive.violates_of_accept refused)⟩
  | object shape =>
    obtain ⟨rfl, located⟩ := refused_eq_mismatch mismatch
    refine ⟨located, .inl (.object ?_)⟩
    rintro kind entries rfl
    cases shape
  | array shape =>
    obtain ⟨rfl, located⟩ := refused_eq_mismatch mismatch
    refine ⟨located, .inl (.array ?_ ?_)⟩
    · rintro items rfl
      cases shape
    · rintro items rfl
      cases shape
  | alt =>
    cases mismatch
    exact ⟨rfl, .inr ⟨rfl, rfl⟩⟩
  | preCondition | postCondition | fail | failWith | forbid | broken => cases structural

/-- The path of a mismatch, read in the input, leads to the one value that its message
is about, and the message is true of that value; or no alternative was there for it. -/
theorem mismatch_is_truthful {defs : Definitions} {d : Decoder} {fuel : Nat} {config : Config}
    {v : Value} {base : String} {path : List Value}
    (within : defs.Everywhere fun e => e.isStructural = true)
    (everywhere : d.Everywhere fun e => e.isStructural = true)
    (failed : (d.run defs fuel config v).outcome =
      .error (.fault (.located .mismatch base path))) :
    ∃ w, Value.Reads path.reverse v w ∧ (∀ w', Value.Reads path.reverse v w' → w' = w) ∧
      (Violates base w ∨ base = unexpectedData ∧
        ∃ c, c.fragments = path ∧ .entered (.alt []) c w ∈ (d.run defs fuel config v).journal) := by
  obtain ⟨closing, whole⟩ := Run.journal_announced (config.loggerFor .engine)
    (d.runAt defs fuel v (.root config))
  rw [run, whole]
  rw [run, Run.outcome_announced] at failed
  have explained := fault_explained within everywhere failed
  generalize same : Fault.located .mismatch base path = fault at explained
  cases explained with
  | @own e w fault c structural entered _ raises =>
    obtain ⟨rfl, cause⟩ := isStructural_raises structural raises same.symm
    obtain ⟨_, steps, reads, fragments⟩ :=
      runAt_located within everywhere fuel v (.root config) (Int.le_refl 0) e c w entered
    have read : Value.Reads c.fragments.reverse v w := by
      rw [fragments]
      simpa using reads
    refine ⟨w, read, fun _ other => read.unique other, ?_⟩
    rcases cause with violates | ⟨rfl, rfl⟩
    · exact .inl violates
    · exact .inr ⟨rfl, c, rfl, List.mem_append_left _ entered⟩
  | called structural _ member _ =>
    rw [isStructural_callbacks structural] at member
    cases member
  | limit | undefined => cases same

/-- The last alternative decides which place is reported. -/
theorem mismatch_is_truthful_missing :
    let v : Value := .list [.text "", .mapping .plain []]
    ∃ w, Value.Reads [.text "array at index 1", .text "object property c"] v w ∧
      Violates "Value absent is not a number" w := by
  intro v
  have failed : (Decoder.run (.array (.alt [.primitive .string, .ref "b"]))
      [("b", .object [(.text "c", .primitive .number)])] 2 .default v).outcome =
        .error (.fault (.located .mismatch "Value absent is not a number"
          [.text "object property c", .text "array at index 1"])) := rfl
  obtain ⟨w, reads, _, violates | ⟨nothing, _⟩⟩ :=
    mismatch_is_truthful (by decide) (by decide) failed
  · exact ⟨w, reads, violates⟩
  · exact absurd nothing (by decide)

end Decoder

end Intake

