import Intake.Proofs.Congruence
import Intake.Proofs.Events

/-! Contexts follow calls. `Journal.OfCall` reads a journal as a tree of calls, and every run
leaves such a journal: contexts and paths are those of the calls around them. -/
namespace Intake

/-- The calls that a decoder makes itself when it is on a value: the fragment that it
descends under, if it descends, the decoder called, and the value it is called on. -/
inductive Decoder.Calls (defs : Definitions) (v : Value) :
    Decoder → List Value → Decoder → Value → Prop where
  | field : v.entries? = some entries → (key, e) ∈ fields →
      Calls defs v (.object fields) [.text ("object property " ++ key.display)] e
        (Value.lookup key entries)
  | element (index : Nat) : v.items? = some items → items[index]? = some w →
      Calls defs v (.array e) [.text ("array at index " ++ toString index)] e w
  | push : Calls defs v (.push fragment e) [fragment] e v
  | optional : Calls defs v (.optional e) [] e v
  | nullable : Calls defs v (.nullable e) [] e v
  | withDefault : Calls defs v (.withDefault e instead) [] e v
  | map : Calls defs v (.map e f) [] e v
  | preCondition : Calls defs v (.preCondition e f) [] e v
  | postCondition : Calls defs v (.postCondition e f) [] e v
  | named : Calls defs v (.named label e) [] e v
  | first : Calls defs v (.compose e rest) [] e v
  /-- A later stage is called on what the stage before it gave. -/
  | stage : e ∈ rest → Calls defs v (.compose first rest) [] e w
  | option : e ∈ options → Calls defs v (.alt options) [] e v
  | ref : defs.lookup target = some e → Calls defs v (.ref target) [] e v

/-- Calls inside calls, with the fragments of the descents on the way, innermost first. -/
inductive Decoder.Reaches (defs : Definitions) :
    Decoder → Value → List Value → Decoder → Value → Prop where
  | here : Reaches defs d v [] d v
  | step : d.Calls defs v fragment e w → Reaches defs e w path e' w' →
      Reaches defs d v (path ++ fragment) e' w'

theorem Decoder.Reaches.snoc {defs : Definitions} {d e e' : Decoder} {v w w' : Value}
    {path fragment : List Value} (reaches : Reaches defs d v path e w)
    (calls : e.Calls defs w fragment e' w') : Reaches defs d v (fragment ++ path) e' w' := by
  induction reaches with
  | here =>
    have single := Reaches.step calls .here
    simpa using single
  | step first _ ih =>
    rw [← List.append_assoc]
    exact .step first (ih calls)

/-- What a decoder called on a value at a context does itself. -/
inductive Event.Own (defs : Definitions) (c : Context) (path : List Value) (d : Decoder)
    (v : Value) : Event → Prop where
  | descended : d.Calls defs v fragment e w →
      Own defs c path d v (.descended (c.pushAll (fragment ++ path)))
  | counted : Own defs c path d v (.counted size (c.pushAll path))
  | logged : Own defs c path d v (.logged record)
  /-- The library locates a fault where it arises, -/
  | built {grade : Grade} {base : String} :
      Own defs c path d v (.raised (.located grade base (c.pushAll path).fragments))
  /-- and a descent that is refused at the place that it was to lead to. -/
  | refused {grade : Grade} {base : String} : d.Calls defs v fragment e w →
      Own defs c path d v (.raised (.located grade base (c.pushAll (fragment ++ path)).fragments))
  | plain : m.isLocated = false → Own defs c path d v (.raised m)

/-- The journal of a call, as far as it came. It begins with the entry and goes on with
what the decoder does itself and with the journals of its callbacks and of the calls that
it makes. -/
inductive Journal.OfCall (defs : Definitions) (c : Context) :
    List Value → Decoder → Value → Journal → Prop where
  | entered : OfCall defs c path d v [.entered d (c.pushAll path) v]
  | own : OfCall defs c path d v j → Event.Own defs c path d v x →
      OfCall defs c path d v (j ++ [x])
  | callback : OfCall defs c path d v j → f ∈ d.callbacks →
      OfCall defs c path d v (j ++ (f.call a).journal)
  | call {inner : Journal} : OfCall defs c path d v j → d.Calls defs v fragment e w →
      OfCall defs c (fragment ++ path) e w inner → OfCall defs c path d v (j ++ inner)

namespace Journal

variable {defs : Definitions} {c : Context} {path : List Value} {d : Decoder} {v : Value}
  {j : Journal}

theorem OfCall.entered_mem (call : OfCall defs c path d v j) :
    .entered d (c.pushAll path) v ∈ j := by
  induction call with
  | entered => exact List.mem_singleton_self _
  | own _ _ ih => exact List.mem_append_left _ ih
  | callback _ _ ih => exact List.mem_append_left _ ih
  | call _ _ _ ih => exact List.mem_append_left _ ih

/-- Every call in the journal of a call stands at the context of the calls around it. -/
theorem OfCall.reaches (call : OfCall defs c path d v j) {e : Decoder} {c' : Context} {w : Value}
    (member : .entered e c' w ∈ j) :
    ∃ inner, d.Reaches defs v inner e w ∧ c' = c.pushAll (inner ++ path) := by
  induction call with
  | entered =>
    cases List.mem_singleton.mp member
    exact ⟨[], .here, rfl⟩
  | own _ own ih =>
    rcases List.mem_append.mp member with earlier | last
    · exact ih earlier
    · cases List.mem_singleton.mp last
      cases own
  | callback _ _ ih =>
    rcases List.mem_append.mp member with earlier | later
    · exact ih earlier
    · rcases Callback.mem_journal_call later with foreign | ⟨_, foreign⟩ | ⟨_, foreign⟩ <;>
        cases foreign
  | call _ calls _ ih inside =>
    rcases List.mem_append.mp member with earlier | later
    · exact ih earlier
    · obtain ⟨inner, reaches, rfl⟩ := inside later
      refine ⟨inner ++ _, .step calls reaches, ?_⟩
      rw [List.append_assoc]

def Throws (j : Journal) (m : Fault) : Prop :=
  ∃ e c v f a, .entered e c v ∈ j ∧ f ∈ e.callbacks ∧ (f.call a).journal <:+: j ∧
    (f.apply a).2 = .error m

theorem Throws.of_infix {j' : Journal} {m : Fault} (throws : j.Throws m) (part : j <:+: j') :
    j'.Throws m := by
  obtain ⟨e, c, v, f, a, entered, callback, block, thrown⟩ := throws
  exact ⟨e, c, v, f, a, part.subset entered, callback, block.trans part, thrown⟩

/-- Every located fault in the journal of a call is thrown by a callback that is called in
it, or its path is that of the calls around it. -/
theorem OfCall.raised (call : OfCall defs c path d v j) {grade : Grade} {base : String}
    {shown : List Value} (member : .raised (.located grade base shown) ∈ j) :
    (∃ inner e w, d.Reaches defs v inner e w ∧ shown = (c.pushAll (inner ++ path)).fragments) ∨
      j.Throws (.located grade base shown) := by
  induction call with
  | entered => cases List.mem_singleton.mp member
  | own _ own ih =>
    rcases List.mem_append.mp member with earlier | last
    · exact (ih earlier).imp_right fun throws => throws.of_infix (List.prefix_append _ _).isInfix
    · have same := List.mem_singleton.mp last
      subst same
      cases own with
      | built => exact .inl ⟨[], _, _, .here, rfl⟩
      | refused calls =>
        have single := Decoder.Reaches.here.snoc calls
        exact .inl ⟨_, _, _, single, by rw [List.append_nil]⟩
      | plain unlocated => cases unlocated
  | callback before callback ih =>
    rcases List.mem_append.mp member with earlier | later
    · exact (ih earlier).imp_right fun throws => throws.of_infix (List.prefix_append _ _).isInfix
    · exact .inr ⟨_, _, _, _, _, List.mem_append_left _ before.entered_mem, callback,
        (List.suffix_append _ _).isInfix, Callback.apply_of_raised later⟩
  | call _ calls _ ih inside =>
    rcases List.mem_append.mp member with earlier | later
    · exact (ih earlier).imp_right fun throws => throws.of_infix (List.prefix_append _ _).isInfix
    · rcases inside later with ⟨inner, e, w, reaches, rfl⟩ | throws
      · refine .inl ⟨inner ++ _, e, w, .step calls reaches, ?_⟩
        rw [List.append_assoc]
      · exact .inr (throws.of_infix (List.suffix_append _ _).isInfix)

end Journal

namespace Run

def Continues (defs : Definitions) (c : Context) (path : List Value) (d : Decoder) (v : Value)
    (r : Run α) : Prop :=
  ∀ j, Journal.OfCall defs c path d v j → Journal.OfCall defs c path d v (j ++ r.journal)

variable {defs : Definitions} {c : Context} {path : List Value} {d : Decoder} {v : Value}

theorem continues_of_own {r : Run α} (own : ∀ x ∈ r.journal, x.Own defs c path d v) :
    r.Continues defs c path d v := by
  obtain ⟨journal, outcome⟩ := r
  intro j call
  induction journal generalizing j with
  | nil => simpa using call
  | cons x rest ih =>
    obtain ⟨first, others⟩ := List.forall_mem_cons.mp own
    have next := ih others (j ++ [x]) (.own call first)
    simpa using next

theorem continues_of_empty {r : Run α} (empty : r.journal = []) : r.Continues defs c path d v := by
  apply continues_of_own
  intro x member
  rw [empty] at member
  cases member

theorem continues_pure (a : α) : (Run.pure a).Continues defs c path d v := continues_of_empty rfl

theorem continues_of_call {r : Run α} (calls : d.Calls defs v fragment e w)
    (inner : Journal.OfCall defs c (fragment ++ path) e w r.journal) :
    r.Continues defs c path d v := fun _ call => .call call calls inner

theorem Continues.bind {r : Run α} {f : α → Run β} (first : r.Continues defs c path d v)
    (rest : ∀ a, (f a).Continues defs c path d v) : (r.bind f).Continues defs c path d v := by
  obtain ⟨journal, outcome⟩ := r
  intro j call
  cases outcome with
  | error stop => exact first j call
  | ok a =>
    rw [bind_ok, ← List.append_assoc]
    exact rest a _ (first j call)

theorem Continues.rescue {r : Run α} {handler : Fault → Run α}
    (first : r.Continues defs c path d v) (rest : ∀ m, (handler m).Continues defs c path d v) :
    (r.rescue handler).Continues defs c path d v := by
  refine rescue_induction first fun m _ _ => ?_
  have paused : (⟨r.journal, .ok ()⟩ : Run Unit).Continues defs c path d v := first
  exact paused.bind fun _ => rest m

theorem continues_traverse {f : β → Run α} {elements : List β}
    (each : ∀ b ∈ elements, (f b).Continues defs c path d v) :
    (traverse f elements).Continues defs c path d v := by
  induction elements with
  | nil => exact continues_pure _
  | cons b rest ih =>
    rw [traverse_cons]
    apply (each b List.mem_cons_self).bind
    intro a
    apply (ih fun x member => each x (List.mem_cons_of_mem b member)).bind
    exact fun as => continues_pure _

/-- A check by a decoder, of itself or of a descent of its own. -/
theorem continues_check {c' : Context} (aspect : Aspect) (n : Int)
    (own : ∀ base, Event.Own defs c path d v (.raised (.located .limit base c'.fragments))) :
    (c'.check aspect n).Continues defs c path d v := by
  unfold Context.check
  split
  · exact continues_pure ()
  · split
    · apply continues_of_own
      intro x member
      rcases List.mem_cons.mp member with rfl | member
      · exact .logged
      · cases List.mem_singleton.mp member
        exact own _
    · exact continues_pure ()

theorem continues_emit {x : Event} (own : x.Own defs c path d v) :
    (emit x).Continues defs c path d v := by
  apply continues_of_own
  intro y member
  cases List.mem_singleton.mp member
  exact own

theorem continues_raise {m : Fault} (own : Event.Own defs c path d v (.raised m)) :
    (raise m : Run α).Continues defs c path d v := by
  apply continues_of_own
  intro y member
  cases List.mem_singleton.mp member
  exact own

theorem continues_arrive (calls : d.Calls defs v fragment e w) :
    (c.pushAll (fragment ++ path)).arrive.Continues defs c path d v :=
  (continues_emit (.descended calls)).bind fun _ => continues_check _ _ fun _ => .refused calls

theorem continues_count (size : Nat) :
    ((c.pushAll path).count size).Continues defs c path d v :=
  (continues_emit .counted).bind fun _ => continues_check _ _ fun _ => .built

theorem continues_callback {f : Callback} (callback : f ∈ d.callbacks) (a : Value) :
    (f.call a).Continues defs c path d v := fun _ call => .callback call callback

end Run

/-- Whatever a decoder raises itself is located where it stands, or not located. -/
theorem Decoder.Raises.own {d : Decoder} {v : Value} {fault : Context → Fault}
    (raises : d.Raises v fault) {defs : Definitions} {c : Context} {path : List Value} :
    Event.Own defs c path d v (.raised (fault (c.pushAll path))) := by
  have located (grade : Grade) (message : Value) : Event.Own defs c path d v
      (.raised (.locate grade message (c.pushAll path).fragments)) := by
    cases message with
    | text base => exact .built
    | _ => exact .plain rfl
  have refused (message : String) : Event.Own defs c path d v
      (.raised (.refused v message (c.pushAll path))) := by
    by_cases shown : v.isWritable = true
    · simp only [Fault.refused, shown]
      exact located .mismatch (.text message)
    · simp only [Fault.refused, shown]
      exact .plain rfl
  cases raises with
  | primitive | object | array => exact refused _
  | preCondition | postCondition | fail | failWith | alt => exact located .mismatch _
  | forbid => exact located .limit _
  | broken => exact .plain rfl

def Action.Leaves (defs : Definitions) (c : Context) (d : Decoder) (a : Action) : Prop :=
  ∀ path v, Journal.OfCall defs c path d v (a v (c.pushAll path)).journal

def Action.Refers (defs : Definitions) (c : Context) (name : String) (a : Action) : Prop :=
  ∀ path v, (a v (c.pushAll path)).Continues defs c path (.ref name) v

namespace Decoder

variable {defs : Definitions} {c : Context} {path : List Value} {v : Value}

theorem continues_field {entries : List (Value × Value)} {fields : List (Value × Decoder)}
    {field : Value × Decoder} {a : Action} (shape : v.entries? = some entries)
    (member : field ∈ fields) (leaves : a.Leaves defs c field.2) :
    (Action.field entries (c.pushAll path) (field.1, a)).Continues defs c path
      (.object fields) v := by
  have calls : Calls defs v (.object fields) [.text ("object property " ++ field.1.display)] field.2
      (Value.lookup field.1 entries) := .field shape member
  rw [Action.field_eq]
  apply (Run.continues_arrive calls).bind
  intro _
  apply (Run.continues_of_call calls (leaves _ _)).bind
  exact fun _ => Run.continues_pure _

theorem continues_item {items : List Value} {item : Decoder} {element : Value × Nat} {a : Action}
    (shape : v.items? = some items) (member : element ∈ items.zipIdx)
    (leaves : a.Leaves defs c item) :
    (Action.item a (c.pushAll path) element).Continues defs c path (.array item) v := by
  have found : items[element.2]? = some element.1 := List.mem_zipIdx_iff_getElem?.mp member
  have calls : Calls defs v (.array item) [.text ("array at index " ++ toString element.2)] item
      element.1 := .element element.2 shape found
  rw [Action.item_eq]
  exact (Run.continues_arrive calls).bind fun _ => Run.continues_of_call calls (leaves _ _)

theorem continues_require {d : Decoder} {f : Callback} (callback : f ∈ d.callbacks) (a : Value)
    (raises : ∀ message, d.Raises v (.mismatch message)) :
    (Action.require f a (c.pushAll path)).Continues defs c path d v := by
  apply (Run.continues_callback callback a).bind
  intro message
  cases message.isNull with
  | true => exact Run.continues_pure ()
  | false => exact Run.continues_raise (raises message).own

theorem continues_stages {first : Decoder} {rest stages : List Decoder} {a : Decoder → Action}
    (inside : ∀ e ∈ stages, e ∈ rest) (leaves : ∀ e ∈ stages, (a e).Leaves defs c e) (w : Value) :
    (Action.compose (stages.map a) w (c.pushAll path)).Continues defs c path
      (.compose first rest) v := by
  induction stages generalizing w with
  | nil => exact Run.continues_pure w
  | cons e others ih =>
    have calls : Calls defs v (.compose first rest) [] e w :=
      .stage (inside e List.mem_cons_self)
    apply (Run.continues_of_call calls (leaves e List.mem_cons_self path w)).bind
    exact ih (fun x member => inside x (List.mem_cons_of_mem e member))
      (fun x member => leaves x (List.mem_cons_of_mem e member))

theorem continues_alternatives {options others : List Decoder} {last : Option Fault}
    {a : Decoder → Action} (inside : ∀ e ∈ others, e ∈ options)
    (leaves : ∀ e ∈ others, (a e).Leaves defs c e) :
    (Action.alternatives last (others.map fun e => (e.name, a e)) v (c.pushAll path)).Continues
      defs c path (.alt options) v := by
  induction others generalizing last with
  | nil =>
    cases last with
    | none => exact Run.continues_raise .built
    | some m => exact Run.continues_of_empty rfl
  | cons e others ih =>
    have calls : Calls defs v (.alt options) [] e v := .option (inside e List.mem_cons_self)
    apply (Run.continues_of_call calls (leaves e List.mem_cons_self path v)).rescue
    intro m
    apply (Run.continues_emit .logged).bind
    intro _
    exact ih (fun x member => inside x (List.mem_cons_of_mem e member))
      (fun x member => leaves x (List.mem_cons_of_mem e member))

theorem body_continues {resolve : String → Action} {d : Decoder}
    (references : ∀ name, d = .ref name → (resolve name).Refers defs c name)
    (parts : ∀ e ∈ d.parts, (e.action resolve).Leaves defs c e) :
    (d.body resolve v (c.pushAll path)).Continues defs c path d v := by
  have only {e : Decoder} (single : d.parts = [e]) : (e.action resolve).Leaves defs c e :=
    parts e (by simp [single])
  cases d with
  | primitive p =>
    simp only [body, Action.primitive]
    split
    next => exact Run.continues_pure _
    next refused => exact Run.continues_raise (Raises.primitive refused).own
  | constant w => exact Run.continues_pure w
  | object fields =>
    cases shape : v.entries? with
    | none =>
      simp only [body, Action.object_of_none shape]
      exact Run.continues_raise (Raises.object shape).own
    | some entries =>
      simp only [body, Action.object_of_some shape]
      refine Run.Continues.bind ?_ fun _ => Run.continues_pure _
      rw [Run.traverse_map]
      apply Run.continues_traverse
      intro field member
      exact continues_field shape member (parts field.2 (List.mem_map_of_mem member))
  | array item =>
    cases shape : v.items? with
    | none =>
      simp only [body, Action.array_of_none shape]
      exact Run.continues_raise (Raises.array shape).own
    | some items =>
      simp only [body, Action.array_of_some shape]
      apply (Run.continues_count items.length).bind
      intro _
      refine Run.Continues.bind ?_ fun _ => Run.continues_pure _
      apply Run.continues_traverse
      exact fun element member => continues_item shape member (only rfl)
  | optional of =>
    simp only [body, Action.optional]
    split
    · exact Run.continues_pure _
    · exact Run.continues_of_call .optional (only rfl path v)
  | nullable of =>
    simp only [body, Action.nullable]
    split
    · exact Run.continues_pure _
    · exact Run.continues_of_call .nullable (only rfl path v)
  | withDefault of instead =>
    apply (Run.continues_of_call .withDefault (only rfl path v)).bind
    intro w
    cases w.isPresent with
    | true => exact Run.continues_pure _
    | false =>
      cases instead with
      | value x => exact Run.continues_pure _
      | supplier f => exact Run.continues_callback (List.mem_singleton_self f) .null
  | map of f =>
    apply (Run.continues_of_call .map (only rfl path v)).bind
    exact Run.continues_callback (List.mem_singleton_self f)
  | lift f => exact Run.continues_callback (List.mem_singleton_self f) v
  | compose first rest =>
    apply (Run.continues_of_call .first (parts first List.mem_cons_self path v)).bind
    exact continues_stages (fun _ member => member)
      (fun e member => parts e (List.mem_cons_of_mem first member))
  | preCondition of f =>
    apply (continues_require (List.mem_singleton_self f) v fun _ => .preCondition).bind
    intro _
    exact Run.continues_of_call .preCondition (only rfl path v)
  | postCondition of f =>
    apply (Run.continues_of_call .postCondition (only rfl path v)).bind
    intro w
    apply (continues_require (List.mem_singleton_self f) w fun _ => .postCondition).bind
    exact fun _ => Run.continues_pure w
  | fail message => exact Run.continues_raise Raises.fail.own
  | failWith f =>
    apply (Run.continues_callback (List.mem_singleton_self f) v).bind
    exact fun message => Run.continues_raise Raises.failWith.own
  | alt options =>
    exact continues_alternatives (fun _ member => member) parts
  | named label of => exact Run.continues_of_call .named (only rfl path v)
  | inspect => exact Run.continues_pure _
  | ref name => exact references name rfl path v
  | push fragment of => exact Run.continues_of_call .push (only rfl (fragment :: path) v)
  | forbid message => exact Run.continues_raise Raises.forbid.own
  | broken w => exact Run.continues_raise Raises.broken.own

/-- Every run of a decoder leaves the journal of a call. -/
theorem runAt_leaves (d : Decoder) (defs : Definitions) (fuel : Nat) (c : Context) :
    (d.runAt defs fuel).Leaves defs c d := by
  refine runAt_induction_on (P := fun d a => a.Leaves defs c d)
    (R := fun name a => a.Refers defs c name) ?_ ?_ ?_ ?_ defs.everywhere_true fuel
    d.everywhere_true
  · exact fun _ _ _ => Run.continues_of_empty rfl
  · exact fun _ _ _ _ _ => Run.continues_raise (.plain rfl)
  · exact fun _ _ _ found leaves path v => Run.continues_of_call (.ref found) (leaves path v)
  · intro fuel references d _ parts path v
    have rest : (d.body (defs.resolve fuel) v (c.pushAll path)).Continues defs c path d v :=
      body_continues (fun name _ => references name trivial) parts
    rw [runAt, action_eq_run]
    exact rest _ .entered

/-- Each call stands at the context of the start under the fragments of the fields,
elements and pushes around it, and no other path is reported but by a callback that throws
it. -/
theorem contexts_follow_calls (d : Decoder) (defs : Definitions) (fuel : Nat) (v : Value)
    (c : Context) (counted : 0 ≤ c.depth) :
    let j := (d.runAt defs fuel v c).journal
    j.OfCall defs c [] d v ∧
      (∀ e c' w, .entered e c' w ∈ j → ∃ path, d.Reaches defs v path e w ∧
        c' = c.pushAll path ∧ c'.config = c.config ∧ c'.fragments = path ++ c.fragments ∧
        c'.depth = c.depth + path.length) ∧
      ∀ grade base shown, .raised (.located grade base shown) ∈ j →
        (∃ path e w, d.Reaches defs v path e w ∧ shown = path ++ c.fragments) ∨
          j.Throws (.located grade base shown) := by
  intro j
  have call : j.OfCall defs c [] d v := runAt_leaves d defs fuel c [] v
  refine ⟨call, ?_, ?_⟩
  · intro e c' w entered
    obtain ⟨path, reaches, rfl⟩ := call.reaches entered
    rw [List.append_nil]
    exact ⟨path, reaches, rfl, c.config_pushAll path, c.fragments_pushAll path counted,
      c.depth_pushAll path⟩
  · intro grade base shown raised
    rcases call.raised raised with ⟨path, e, w, reaches, rfl⟩ | throws
    · rw [List.append_nil, c.fragments_pushAll path counted]
      exact .inl ⟨path, e, w, reaches, rfl⟩
    · exact .inr throws

/-- The element before, the field before and the rejected alternative leave no fragment. -/
theorem contexts_follow_calls_field :
    let d : Decoder := .array (.alt [.push (.text "p") (.primitive .number),
      .object [(.text "a", .constant .null), (.text "b", .ref "any")]])
    let defs : Definitions := [("any", .primitive .unknown)]
    let v : Value := .list [.int 1, .mapping .readOnly []]
    let c := (Context.root .default).push (.text "c")
    0 ≤ c.depth ∧ d.Reaches defs v [.text "object property b", .text "array at index 1"]
      (.primitive .unknown) .absent := by
  intro d defs v c
  have counted : 0 ≤ c.depth := by decide
  have entered : (d.runAt defs 1 v c).journal[17]? = some (.entered (.primitive .unknown)
      (c.pushAll [.text "object property b", .text "array at index 1"]) .absent) := rfl
  obtain ⟨_, calls, _⟩ := contexts_follow_calls d defs 1 v c counted
  obtain ⟨path, reaches, _, _, fragments, _⟩ := calls _ _ _ (List.mem_of_getElem? entered)
  rw [c.fragments_pushAll _ counted] at fragments
  rw [List.append_cancel_right fragments]
  exact ⟨counted, reaches⟩

end Decoder

end Intake
