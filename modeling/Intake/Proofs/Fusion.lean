import Intake.Proofs.Fuel
import Intake.Proofs.Normalisation
import Intake.Proofs.Termination

/-! Two passes fuse into one. To compose the decoders of elements or fields is to compose
arrays or objects of them, as far as values go; which fault comes first depends on the order.
-/
namespace Intake

namespace Action

def andThen (first second : Action) : Action := fun v c => (first v c).bind fun w => second w c

theorem compose_cons (a : Action) (rest : List Action) :
    compose (a :: rest) = a.andThen (compose rest) := rfl

theorem andThen_pure (a : Action) : a.andThen (compose []) = a := by
  funext v c
  exact Run.bind_pure (a v c)

/-- The actions give the same values. -/
def Agrees (a b : Action) : Prop := ∀ v c w, (a v c).outcome = .ok w ↔ (b v c).outcome = .ok w

theorem agrees_refl (a : Action) : a.Agrees a := fun _ _ _ => Iff.rfl

theorem Agrees.trans {a b c : Action} (first : a.Agrees b) (second : b.Agrees c) : a.Agrees c :=
  fun v ctx w => (first v ctx w).trans (second v ctx w)

theorem Agrees.symm {a b : Action} (agrees : a.Agrees b) : b.Agrees a :=
  fun v c w => (agrees v c w).symm

theorem agrees_entering (d : Decoder) (a : Action) : (entering d a).Agrees a :=
  fun _ _ _ => Iff.rfl

theorem Agrees.andThen {a a' b b' : Action} (first : a.Agrees a') (second : b.Agrees b') :
    (a.andThen b).Agrees (a'.andThen b') := by
  intro v c w
  simp only [Action.andThen, Run.outcome_bind_eq_ok, first v c, second _ c w]

theorem agrees_compose {a b : ι → Action} {stages : List ι}
    (each : ∀ i ∈ stages, (a i).Agrees (b i)) :
    (compose (stages.map a)).Agrees (compose (stages.map b)) := by
  induction stages with
  | nil => exact agrees_refl _
  | cons i rest ih =>
    exact (each i List.mem_cons_self).andThen
      (ih fun j member => each j (List.mem_cons_of_mem i member))

theorem Agrees.array {a b : Action} (agrees : a.Agrees b) : (array a).Agrees (array b) := by
  intro v c r
  simp only [outcome_array_eq_ok, agrees _ _ _]

/-- An array of two stages gives what an array of the first and then of the second gives. -/
theorem agrees_array_andThen (first second : Action) :
    (array (first.andThen second)).Agrees ((array first).andThen (array second)) := by
  intro v c r
  simp only [andThen, Run.outcome_bind_eq_ok, outcome_array_eq_ok]
  constructor
  · rintro ⟨items, result, shape, rfl, counted, each⟩
    choose! middle gives using fun element member => (each element member).2
    have back (element : Value × Nat) (member : element ∈ items.zipIdx) :
        (items[element.2]?.getD .null, element.2) = element := by
      rw [List.mem_zipIdx_iff_getElem?.mp member, Option.getD_some]
    refine ⟨_, ⟨items, middle, shape, rfl, counted, ?_⟩, _,
      fun element => result (items[element.2]?.getD .null, element.2), rfl, ?_, ?_, ?_⟩
    · exact fun element member => ⟨(each element member).1, (gives element member).1⟩
    · rw [zipIdx_map_zipIdx, List.map_map]
      refine congrArg Value.list (List.map_congr_left fun element member => ?_)
      exact congrArg result (back element member).symm
    · rwa [List.length_map, List.length_zipIdx]
    · rw [zipIdx_map_zipIdx]
      intro _ inside
      obtain ⟨element, member, rfl⟩ := List.mem_map.mp inside
      simp only [back element member]
      exact ⟨(each element member).1, (gives element member).2⟩
  · rintro ⟨_, ⟨items, middle, shape, rfl, counted, each⟩, _, result, again, rfl, _, later⟩
    cases again
    rw [zipIdx_map_zipIdx] at later ⊢
    refine ⟨items, fun element => result (middle element, element.2), shape, ?_, counted, ?_⟩
    · rw [List.map_map]
      rfl
    · intro element member
      have next := later (middle element, element.2)
        (List.mem_map_of_mem (f := fun element => (middle element, element.2)) member)
      exact ⟨(each element member).1, middle element, (each element member).2, next.2⟩

def objectOf (names : List String) (a : String → Action) : Action :=
  object (names.map fun name => (.text name, a name))

theorem outcome_objectOf_eq_ok {names : List String} {a : String → Action} {v r : Value}
    {c : Context} :
    (objectOf names a v c).outcome = .ok r ↔
      ∃ entries, ∃ result : String → Value, v.entries? = some entries ∧
        r = .mapping .plain ((names.map fun name => (.text name, result name)).filter
          fun entry => !entry.2.isAbsent) ∧
        ∀ name ∈ names,
          (c.push (.text (fieldFragment (.text name)))).arrive.outcome = .ok () ∧
          (a name (Value.lookup (.text name) entries)
            (c.push (.text (fieldFragment (.text name))))).outcome = .ok (result name) := by
  have named : objectOf names a = object ((names.map fun name => (Value.text name, name)).map
      fun field => (field.1, a field.2)) := by
    rw [List.map_map]
    rfl
  rw [named, outcome_object_eq_ok]
  constructor
  · rintro ⟨entries, result, shape, rfl, each⟩
    refine ⟨entries, fun name => result (.text name, name), shape, ?_, ?_⟩
    · rw [List.map_map]
      rfl
    · exact List.forall_mem_map.mp each
  · rintro ⟨entries, result, shape, rfl, each⟩
    refine ⟨entries, fun field => result field.2, shape, ?_, ?_⟩
    · rw [List.map_map]
      rfl
    · exact List.forall_mem_map.mpr each

theorem Agrees.objectOf {names : List String} {a b : String → Action}
    (agree : ∀ name ∈ names, (a name).Agrees (b name)) :
    (objectOf names a).Agrees (objectOf names b) := by
  intro v c r
  rw [outcome_objectOf_eq_ok, outcome_objectOf_eq_ok]
  refine exists₂_congr fun entries result => and_congr_right fun _ => and_congr_right fun _ => ?_
  exact forall₂_congr fun name member => and_congr_right fun _ => agree name member _ _ _

/-- An object of two stages gives what an object of the first and then of the second gives,
also where the first leaves a field out. -/
theorem agrees_objectOf_andThen {names : List String} (distinct : names.Nodup)
    (first second : String → Action) :
    (objectOf names fun name => (first name).andThen (second name)).Agrees
      ((objectOf names first).andThen (objectOf names second)) := by
  have found (middle : String → Value) (name : String) (member : name ∈ names) :
      Value.lookup (.text name) ((names.map fun name => (.text name, middle name)).filter
        fun entry => !entry.2.isAbsent) = middle name := by
    apply Value.lookup_text_of_mem
    · rw [List.map_map]
      exact distinct.map fun _ _ same => Value.text.inj same
    · exact List.mem_map_of_mem (f := fun name => (Value.text name, middle name)) member
  intro v c r
  simp only [andThen, Run.outcome_bind_eq_ok, outcome_objectOf_eq_ok]
  constructor
  · rintro ⟨entries, result, shape, rfl, each⟩
    choose! middle gives using fun name member => (each name member).2
    refine ⟨_, ⟨entries, middle, shape, rfl, ?_⟩, _, result, rfl, rfl, ?_⟩
    · exact fun name member => ⟨(each name member).1, (gives name member).1⟩
    · intro name member
      rw [found middle name member]
      exact ⟨(each name member).1, (gives name member).2⟩
  · rintro ⟨_, ⟨entries, middle, shape, rfl, each⟩, _, result, again, rfl, later⟩
    cases again
    refine ⟨entries, result, shape, rfl, ?_⟩
    intro name member
    have next := (later name member).2
    rw [found middle name member] at next
    exact ⟨(each name member).1, middle name, (each name member).2, next⟩

/-- What fuses two stages fuses any number of them. -/
theorem agrees_of_fuses {σ ι : Type} (lift : (ι → Action) → Action)
    (fuses : ∀ a b, (lift fun i => (a i).andThen (b i)).Agrees ((lift a).andThen (lift b)))
    (act : σ → ι → Action) (first : σ) (rest : List σ) :
    (lift fun i => compose ((first :: rest).map fun stage => act stage i)).Agrees
      (compose ((first :: rest).map fun stage => lift (act stage))) := by
  induction rest generalizing first with
  | nil => simpa only [List.map_cons, List.map_nil, compose_cons, andThen_pure] using agrees_refl _
  | cons second rest ih =>
    exact (fuses (act first) _).trans ((agrees_refl (lift (act first))).andThen (ih second))

end Action

/-- Both runs give one value, or both end in faults, as soon as each has fuel enough to end;
and one gives a value with no more fuel than the other. -/
structure Run.Concur (r r' : Nat → Run α) : Prop where
  values : ∀ fuel a, (r fuel).outcome = .ok a ↔ (r' fuel).outcome = .ok a
  endings : ∀ fuel fuel', (r fuel).Ends → (r' fuel').Ends →
    (∃ a, (r fuel).outcome = .ok a ∧ (r' fuel').outcome = .ok a) ∨
      ∃ m m', (r fuel).outcome = .error (.fault m) ∧ (r' fuel').outcome = .error (.fault m')

namespace Decoder

variable {defs : Definitions} {v : Value} {c : Context}

theorem concur_of_agrees {d d' : Decoder}
    (agree : ∀ fuel, (d.runAt defs fuel).Agrees (d'.runAt defs fuel)) :
    Run.Concur (fun fuel => d.runAt defs fuel v c) fun fuel => d'.runAt defs fuel v c where
  values fuel := agree fuel v c
  endings := by
    intro fuel fuel' ends ends'
    -- with the greater amount of fuel both are the runs that they are
    have same := runAt_of_le (Nat.le_max_left fuel fuel') ends
    have same' := runAt_of_le (Nat.le_max_right fuel fuel') ends'
    have values := agree (max fuel fuel') v c
    rw [same, same'] at values
    match outcome : (d.runAt defs fuel v c).outcome,
        outcome' : (d'.runAt defs fuel' v c).outcome with
    | .ok a, _ => exact .inl ⟨a, rfl, outcome' ▸ (values a).mp outcome⟩
    | _, .ok a => exact .inl ⟨a, outcome ▸ (values a).mpr outcome', rfl⟩
    | .error (.fault m), .error (.fault m') => exact .inr ⟨m, m', rfl, rfl⟩
    | .error .exhausted, _ => exact absurd outcome ends
    | _, .error .exhausted => exact absurd outcome' ends'

theorem agrees_body (d : Decoder) (resolve : String → Action) :
    (d.action resolve).Agrees (d.body resolve) := by
  rw [action_eq_entering]
  exact Action.agrees_entering d _

def objectOf (names : List String) (field : String → Decoder) : Decoder :=
  .object (names.map fun name => (.text name, field name))

theorem body_objectOf (resolve : String → Action) (names : List String) (field : String → Decoder) :
    (objectOf names field).body resolve =
      Action.objectOf names fun name => (field name).action resolve := by
  rw [objectOf, body, List.map_map]
  rfl

theorem agrees_array_compose (first : Decoder) (rest : List Decoder) (fuel : Nat) :
    ((array (compose first rest)).runAt defs fuel).Agrees
      ((compose (array first) (rest.map array)).runAt defs fuel) := by
  let act := action (defs.resolve fuel)
  have elements : ((array (compose first rest)).runAt defs fuel).Agrees
      (.array (.compose ((first :: rest).map act))) :=
    (agrees_body _ _).trans (agrees_body (compose first rest) _).array
  have arrays : ((compose (array first) (rest.map array)).runAt defs fuel).Agrees
      (.compose ((first :: rest).map fun stage => .array (act stage))) := by
    refine (agrees_body _ _).trans ?_
    rw [body, ← List.map_cons, List.map_map]
    exact Action.agrees_compose fun stage _ => agrees_body (array stage) _
  have fused := Action.agrees_of_fuses (ι := Unit) (fun a => .array (a ()))
    (fun a b => Action.agrees_array_andThen (a ()) (b ())) (fun stage _ => act stage) first rest
  exact elements.trans (fused.trans arrays.symm)

theorem agrees_objectOf_compose {names : List String} (distinct : names.Nodup)
    (first : String → Decoder) (rest : List (String → Decoder)) (fuel : Nat) :
    ((objectOf names fun name => compose (first name) (rest.map (· name))).runAt defs fuel).Agrees
      ((compose (objectOf names first) (rest.map (objectOf names))).runAt defs fuel) := by
  let act (stage : String → Decoder) (name : String) := (stage name).action (defs.resolve fuel)
  have fields : ((objectOf names fun name => compose (first name) (rest.map (· name))).runAt
      defs fuel).Agrees
      (.objectOf names fun name => .compose ((first :: rest).map fun stage => act stage name)) := by
    refine (agrees_body _ _).trans ?_
    rw [body_objectOf]
    apply Action.Agrees.objectOf
    intro name _
    refine (agrees_body _ _).trans ?_
    rw [body, ← List.map_cons (f := fun stage : String → Decoder => stage name), List.map_map]
    exact Action.agrees_refl _
  have objects : ((compose (objectOf names first) (rest.map (objectOf names))).runAt
      defs fuel).Agrees
      (.compose ((first :: rest).map fun stage => .objectOf names (act stage))) := by
    refine (agrees_body _ _).trans ?_
    rw [body, ← List.map_cons, List.map_map]
    apply Action.agrees_compose
    intro stage _
    have object := agrees_body (objectOf names stage) (defs.resolve fuel)
    rwa [body_objectOf] at object
  have fused := Action.agrees_of_fuses _ (Action.agrees_objectOf_andThen distinct) act first rest
  exact fields.trans (fused.trans objects.symm)

/-- Stages one after the other on each element or field, and one pass over all elements or
fields for each stage: both give the same, or both fail. -/
theorem passes_fuse (defs : Definitions) (v : Value) (c : Context) :
    (∀ (first : Decoder) (rest : List Decoder),
      Run.Concur (fun fuel => (array (compose first rest)).runAt defs fuel v c)
        fun fuel => (compose (array first) (rest.map array)).runAt defs fuel v c) ∧
    ∀ (names : List String) (first : String → Decoder) (rest : List (String → Decoder)),
      names.Nodup →
      Run.Concur
        (fun fuel =>
          (objectOf names fun name => compose (first name) (rest.map (· name))).runAt defs fuel v c)
        fun fuel =>
          (compose (objectOf names first) (rest.map (objectOf names))).runAt defs fuel v c :=
  ⟨fun first rest => concur_of_agrees (agrees_array_compose first rest),
    fun _ first rest distinct => concur_of_agrees (agrees_objectOf_compose distinct first rest)⟩

/-- A field that the first stage leaves out comes back in the second, under limits. -/
theorem passes_fuse_absent :
    let names : List String := ["a", "b"]
    let first : String → Decoder := fun _ => .optional (.primitive .number)
    let rest : List (String → Decoder) :=
      [fun _ => .withDefault (.primitive .unknown) (.value (.int 7))]
    let c : Context := .root ⟨some ⟨.whole 1, .whole 1⟩, none⟩
    let v : Value := .mapping .ordered [(.text "b", .int 1), (.text "c", .int 2)]
    let w : Value := .mapping .plain [(.text "a", .int 7), (.text "b", .int 1)]
    names.Nodup ∧
      ((objectOf names fun name => compose (first name) (rest.map (· name))).runAt
        [] 0 v c).outcome = .ok w ∧
      ((compose (objectOf names first) (rest.map (objectOf names))).runAt [] 0 v c).outcome =
        .ok w := by
  intro names first rest c v w
  have distinct : names.Nodup := by decide
  let entries : List (Value × Value) := [(.text "b", .int 1), (.text "c", .int 2)]
  have missing : Value.lookup (.text "a") entries = .absent := by cbv
  have found : Value.lookup (.text "b") entries = .int 1 := by cbv
  have fused : ((objectOf names fun name => compose (first name) (rest.map (· name))).runAt
      [] 0 v c).outcome = .ok w := by
    apply (agrees_body _ _ v c w).mpr
    rw [body_objectOf, Action.outcome_objectOf_eq_ok]
    refine ⟨entries, fun name => if name = "a" then .int 7 else .int 1, rfl, rfl, ?_⟩
    rw [List.forall_mem_cons, List.forall_mem_singleton, missing, found]
    exact ⟨⟨rfl, rfl⟩, rfl, rfl⟩
  have same := ((passes_fuse [] v c).2 names first rest distinct).values 0 w
  exact ⟨distinct, fused, same.mp fused⟩

end Decoder

end Intake
