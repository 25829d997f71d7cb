import Intake.Proofs.Congruence

/-! How runs come to give a value. A run put together from others gives one just when each of
them gave the one that the next went on with. -/
namespace Intake

namespace Run

theorem outcome_bind_eq_ok {r : Run α} {f : α → Run β} {b : β} :
    (r.bind f).outcome = .ok b ↔ ∃ a, r.outcome = .ok a ∧ (f a).outcome = .ok b := by
  obtain ⟨journal, outcome⟩ := r
  cases outcome with
  | error stop => simp [bind_error]
  | ok a => simp [bind_ok]

theorem outcome_pure_eq_ok {a b : α} : (Run.pure a).outcome = .ok b ↔ b = a := by
  simp only [Run.pure, Except.ok.injEq]
  exact eq_comm

/-- The elements give their values one by one, whatever the run of another gives. -/
theorem outcome_traverse_eq_ok [Inhabited β] {f : α → Run β} {elements : List α}
    {results : List β} :
    (traverse f elements).outcome = .ok results ↔
      ∃ g, results = elements.map g ∧ ∀ a ∈ elements, (f a).outcome = .ok (g a) := by
  constructor
  · intro given
    refine ⟨fun a => (f a).outcome.toOption.getD default, ?_⟩
    induction elements generalizing results with
    | nil => exact ⟨outcome_pure_eq_ok.mp given, nofun⟩
    | cons a rest ih =>
      rw [traverse_cons] at given
      obtain ⟨b, first, next⟩ := outcome_bind_eq_ok.mp given
      obtain ⟨bs, others, last⟩ := outcome_bind_eq_ok.mp next
      obtain ⟨rfl, each⟩ := ih others
      have head : (f a).outcome.toOption.getD default = b := by simp [first, Except.toOption]
      refine ⟨?_, List.forall_mem_cons.mpr ⟨?_, each⟩⟩
      · rw [outcome_pure_eq_ok.mp last, List.map_cons, head]
      · exact first.trans (congrArg Except.ok head.symm)
  · rintro ⟨g, rfl, each⟩
    induction elements with
    | nil => rfl
    | cons a rest ih =>
      obtain ⟨first, others⟩ := List.forall_mem_cons.mp each
      rw [traverse_cons]
      refine outcome_bind_eq_ok.mpr ⟨g a, first, ?_⟩
      exact outcome_bind_eq_ok.mpr ⟨rest.map g, ih others, rfl⟩

end Run

namespace Action

theorem outcome_primitive_eq_ok {p : Primitive} {v w : Value} {c : Context} :
    (primitive p v c).outcome = .ok w ↔ p.accept v = .ok w := by
  unfold primitive
  cases p.accept v with
  | ok given => simp [Run.pure]
  | error message => simp [Run.raise]

theorem outcome_field_eq_ok {entries : List (Value × Value)} {c : Context} {key : Value}
    {a : Action} {entry : Value × Value} :
    (field entries c (key, a)).outcome = .ok entry ↔
      entry.1 = key ∧ (c.push (.text (fieldFragment key))).arrive.outcome = .ok () ∧
        (a (Value.lookup key entries) (c.push (.text (fieldFragment key)))).outcome =
          .ok entry.2 := by
  rw [field_eq]
  constructor
  · intro given
    obtain ⟨_, arrived, next⟩ := Run.outcome_bind_eq_ok.mp given
    obtain ⟨w, gives, last⟩ := Run.outcome_bind_eq_ok.mp next
    cases Run.outcome_pure_eq_ok.mp last
    exact ⟨rfl, arrived, gives⟩
  · rintro ⟨rfl, arrived, given⟩
    refine Run.outcome_bind_eq_ok.mpr ⟨(), arrived, ?_⟩
    exact Run.outcome_bind_eq_ok.mpr ⟨entry.2, given, rfl⟩

theorem outcome_item_eq_ok {a : Action} {c : Context} {element : Value × Nat} {w : Value} :
    (item a c element).outcome = .ok w ↔
      (c.push (.text (itemFragment element.2))).arrive.outcome = .ok () ∧
        (a element.1 (c.push (.text (itemFragment element.2)))).outcome = .ok w := by
  rw [item_eq]
  constructor
  · intro given
    obtain ⟨_, arrived, given⟩ := Run.outcome_bind_eq_ok.mp given
    exact ⟨arrived, given⟩
  · rintro ⟨arrived, given⟩
    exact Run.outcome_bind_eq_ok.mpr ⟨(), arrived, given⟩

theorem outcome_object_eq_ok {fields : List (Value × β)} {a : β → Action} {v : Value} {c : Context}
    {r : Value} :
    (object (fields.map fun field => (field.1, a field.2)) v c).outcome = .ok r ↔
      ∃ entries, ∃ result : Value × β → Value, v.entries? = some entries ∧
        r = .mapping .plain ((fields.map fun field => (field.1, result field)).filter
          fun entry => !entry.2.isAbsent) ∧
        ∀ field ∈ fields,
          (c.push (.text (fieldFragment field.1))).arrive.outcome = .ok () ∧
          (a field.2 (Value.lookup field.1 entries)
            (c.push (.text (fieldFragment field.1)))).outcome = .ok (result field) := by
  constructor
  · intro given
    cases shape : v.entries? with
    | none =>
      rw [object_of_none shape] at given
      cases given
    | some entries =>
      rw [object_of_some shape, Run.traverse_map] at given
      obtain ⟨results, gathered, last⟩ := Run.outcome_bind_eq_ok.mp given
      obtain ⟨g, rfl, each⟩ := Run.outcome_traverse_eq_ok.mp gathered
      have kept (field) (member : field ∈ fields) := outcome_field_eq_ok.mp (each field member)
      refine ⟨entries, fun field => (g field).2, rfl, ?_, fun field member => (kept field member).2⟩
      have same : fields.map g = fields.map fun field => (field.1, (g field).2) := by
        apply List.map_congr_left
        intro field member
        rw [← (kept field member).1]
      rw [Run.outcome_pure_eq_ok.mp last, same]
  · rintro ⟨entries, result, shape, rfl, each⟩
    rw [object_of_some shape, Run.traverse_map]
    refine Run.outcome_bind_eq_ok.mpr ⟨fields.map fun field => (field.1, result field), ?_, rfl⟩
    refine Run.outcome_traverse_eq_ok.mpr ⟨_, rfl, ?_⟩
    intro field member
    exact outcome_field_eq_ok.mpr ⟨rfl, each field member⟩

/-- What is made of elements one by one stands where they stood. -/
theorem zipIdx_map_zipIdx (f : α × Nat → β) (items : List α) :
    (items.zipIdx.map f).zipIdx = items.zipIdx.map fun element => (f element, element.2) := by
  apply List.ext_getElem
  · simp
  · intro i _ _
    simp

theorem outcome_array_eq_ok {a : Action} {v : Value} {c : Context} {r : Value} :
    (array a v c).outcome = .ok r ↔
      ∃ items result, v.items? = some items ∧ r = .list (items.zipIdx.map result) ∧
        (c.count items.length).outcome = .ok () ∧
        ∀ element ∈ items.zipIdx,
          (c.push (.text (itemFragment element.2))).arrive.outcome = .ok () ∧
          (a element.1 (c.push (.text (itemFragment element.2)))).outcome =
            .ok (result element) := by
  constructor
  · intro given
    cases shape : v.items? with
    | none =>
      rw [array_of_none shape] at given
      cases given
    | some items =>
      rw [array_of_some shape] at given
      obtain ⟨_, counted, next⟩ := Run.outcome_bind_eq_ok.mp given
      obtain ⟨results, gathered, last⟩ := Run.outcome_bind_eq_ok.mp next
      obtain ⟨result, rfl, each⟩ := Run.outcome_traverse_eq_ok.mp gathered
      refine ⟨items, result, rfl, Run.outcome_pure_eq_ok.mp last, counted, ?_⟩
      exact fun element member => outcome_item_eq_ok.mp (each element member)
  · rintro ⟨items, result, shape, rfl, counted, each⟩
    rw [array_of_some shape]
    refine Run.outcome_bind_eq_ok.mpr ⟨(), counted, ?_⟩
    refine Run.outcome_bind_eq_ok.mpr ⟨items.zipIdx.map result, ?_, rfl⟩
    refine Run.outcome_traverse_eq_ok.mpr ⟨_, rfl, ?_⟩
    exact fun element member => outcome_item_eq_ok.mpr (each element member)

/-- The form that `optional` and `nullable` share: some values are passed on as they are. -/
def exempt (passes : Value → Bool) (act : Action) : Action := fun v c =>
  if passes v then Run.pure v else act v c

theorem optional_eq_exempt (act : Action) : optional act = exempt Value.isAbsent act := by
  funext v c
  cases v <;> rfl

theorem nullable_eq_exempt (act : Action) : nullable act = exempt Value.isNull act := by
  funext v c
  cases v <;> rfl

/-- A value given is the input passed on, or what the action gives. -/
theorem outcome_exempt_eq_ok {passes : Value → Bool} {act : Action} {v w : Value} {c : Context} :
    (exempt passes act v c).outcome = .ok w ↔
      (passes v = true ∧ w = v) ∨ (passes v = false ∧ (act v c).outcome = .ok w) := by
  unfold exempt
  cases passes v with
  | true => simp [Run.outcome_pure_eq_ok]
  | false => simp

end Action

end Intake
