import Mathlib.Data.Rat.Floor
import Intake.Proofs.Traversal
import Intake.Proofs.Truncation

/-! A decoder of lists of lists that refers to itself. Under limits it gives back the nestings
that are neither too high nor too wide, and else ends in the first check that is too much. -/
namespace Intake

theorem Number.lt_whole {a b : Int} :
    (whole a).quantity.lt (whole b).quantity = true ↔ a < b := by
  simp [quantity, Quantity.lt]

theorem Limits.checked_whole {n : Nat} (positive : 0 < n) (aspect : Aspect) :
    checked aspect (.int n) = .ok (.whole n) := by
  have refused : ¬Quantity.le (.exactly (n : Int)) (.exactly 0) = true := by
    simpa [Quantity.le, Quantity.lt, Quantity.same] using And.intro positive.le positive.ne'
  exact if_neg refused

inductive Nesting where
  | list (elements : List Nesting)

namespace Nesting

mutual

def toValue : Nesting → Value
  | .list elements => .list (toValues elements)

def toValues : List Nesting → List Value
  | [] => []
  | t :: rest => t.toValue :: toValues rest

end

mutual

/-- Nothing where there are no elements, and otherwise one more than the greatest of theirs. -/
def height : Nesting → Nat
  | .list elements => heightOf elements

def heightOf : List Nesting → Nat
  | [] => 0
  | t :: rest => max (t.height + 1) (heightOf rest)

end

def path (place : List Nat) : List Value := place.map fun i => .text (Action.itemFragment i)

inductive At (t : Nesting) : List Nat → Nesting → Prop where
  | here : At t [] t
  | element : At t place (.list elements) → elements[i]? = some e → At t (i :: place) e

mutual

/-- All that limits look at in what stands at a place. -/
def checks (place : List Nat) : Nesting → List Visit
  | .list elements => ⟨.items, elements.length, path place⟩ :: checksFrom place 0 elements

def checksFrom (place : List Nat) (index : Nat) : List Nesting → List Visit
  | [] => []
  | t :: rest => ⟨.depth, (index :: place).length, path (index :: place)⟩ ::
      (t.checks (index :: place) ++ checksFrom place (index + 1) rest)

end

def decoder : Decoder := .array (.ref "tree")

def definitions : Definitions := [("tree", decoder)]

@[simp] theorem length_toValues (ts : List Nesting) : (toValues ts).length = ts.length := by
  induction ts with
  | nil => rfl
  | cons t rest ih => simp [toValues, ih]

@[simp] theorem length_path (place : List Nat) : (path place).length = place.length :=
  List.length_map _

end Nesting

namespace Run

/-- The run ends in the value, and these were its visits. -/
structure Passes (r : Run α) (a : α) (visits : List Visit) : Prop where
  outcome : r.outcome = .ok a
  visits : r.journal.visits = visits

theorem Passes.bind {r : Run α} {f : α → Run β} {first rest : List Visit}
    (before : r.Passes a first) (after : (f a).Passes b rest) :
    (r.bind f).Passes b (first ++ rest) := by
  rw [bind_of_ok before.outcome]
  refine ⟨after.outcome, ?_⟩
  rw [Journal.visits, List.filterMap_append]
  exact congrArg₂ _ before.visits after.visits

theorem Passes.next {r : Run Unit} {r' : Run β} {first rest : List Visit}
    (before : r.Passes () first) (after : r'.Passes b rest) :
    (r.bind fun _ => r').Passes b (first ++ rest) := before.bind after

theorem Passes.map {r : Run α} {visits : List Visit} (passes : r.Passes a visits) (f : α → β) :
    (r.bind fun x => Run.pure (f x)).Passes (f a) visits := by
  have ended : (Run.pure (f a)).Passes (f a) [] := ⟨rfl, rfl⟩
  have whole := passes.bind (f := fun x => Run.pure (f x)) ended
  rwa [List.append_nil] at whole

theorem passes_check {c : Context} {e : Event} {x : Visit} (free : c.config.limits = none)
    (visit : e.visit? = some x) (aspect : Aspect) (n : Int) :
    ((emit e).bind fun _ => c.check aspect n).Passes () [x] := by
  rw [Context.check_of_free free, bind_pure]
  exact ⟨rfl, by simp [emit, Journal.visits, visit]⟩

/-- Limits end a run in the first of its visits that is over its limit. -/
theorem outcome_truncate_of_found {r : Run α} {l : Limits} {x : Visit} (logger : Logger)
    (found : r.journal.visits.find? (Visit.exceeds l) = some x) :
    (r.truncate l logger).outcome = .error (.fault (x.fault l)) := by
  have excessive : ∃ y ∈ r.journal.visits, y.exceeds l = true :=
    ⟨x, List.mem_of_find?_eq_some found, List.find?_some found⟩
  obtain ⟨before, e, after, y, split, visit, exceeds, within⟩ :=
    Journal.exists_first_visit _ excessive
  have first : r.journal.visits.find? (Visit.exceeds l) = some y := by
    have earlier : (Journal.visits before).find? (Visit.exceeds l) = none := by
      rw [List.find?_eq_none]
      simpa using within
    rw [Journal.visits, split, List.filterMap_append, List.find?_append,
      show List.find? _ (List.filterMap _ before) = none from earlier]
    simp [visit, exceeds]
  rw [truncate_eq_cut l logger split visit exceeds within]
  cases first.symm.trans found
  rfl

end Run

namespace Nesting

def spot (config : Config) (place : List Nat) : Context :=
  (Context.root config).pushAll (path place)

section

variable {config : Config} (place : List Nat)

@[simp] theorem config_spot : (spot config place).config = config := Context.config_pushAll _ _

@[simp] theorem fragments_spot : (spot config place).fragments = path place := by
  have start : 0 ≤ (Context.root config).depth := Int.le_refl 0
  rw [spot, Context.fragments_pushAll _ _ start, Context.fragments_root, List.append_nil]

@[simp] theorem depth_spot : (spot config place).depth = place.length := by
  rw [spot, Context.depth_pushAll, length_path]
  exact Int.zero_add _

theorem passes_count (free : config.limits = none) (size : Nat) :
    ((spot config place).count size).Passes () [⟨.items, size, path place⟩] := by
  apply Run.passes_check
  · rwa [config_spot]
  · simp [Event.visit?]

theorem passes_arrive (free : config.limits = none) (index : Nat) :
    (spot config (index :: place)).arrive.Passes ()
      [⟨.depth, (index :: place).length, path (index :: place)⟩] := by
  apply Run.passes_check
  · rwa [config_spot]
  · simp [Event.visit?]

end

theorem passes_ref {fuel : Nat} {v w : Value} {c : Context} {visits : List Visit}
    (passes : (decoder.runAt definitions fuel v c).Passes w visits) :
    ((Decoder.ref "tree").runAt definitions (fuel + 1) v c).Passes w visits := by
  have followed : (Decoder.ref "tree").runAt definitions (fuel + 1) v c =
      (Run.emit (.entered (.ref "tree") c v)).bind fun _ =>
        decoder.runAt definitions fuel v c := rfl
  have entered : (Run.emit (.entered (.ref "tree") c v)).Passes () [] := ⟨rfl, rfl⟩
  rw [followed]
  exact entered.next passes

mutual

/-- Without limits a nesting is given back, and each of its lists is looked at. -/
theorem passes_runAt {config : Config} (free : config.limits = none) (t : Nesting)
    (place : List Nat) {fuel : Nat} (enough : t.height ≤ fuel) :
    (decoder.runAt definitions fuel t.toValue (spot config place)).Passes t.toValue
      (t.checks place) := by
  cases t with
  | list elements =>
    have entered : (Run.emit (.entered decoder (spot config place)
        (Value.list (toValues elements)))).Passes () [] := ⟨rfl, rfl⟩
    have counted := passes_count place free elements.length
    have inner := passes_elements free elements place 0 enough
    rw [toValue, checks, decoder, Decoder.runAt_array rfl, length_toValues]
    exact (entered.next counted).next (inner.map Value.list)

theorem passes_elements {config : Config} (free : config.limits = none) (ts : List Nesting)
    (place : List Nat) (index : Nat) {fuel : Nat} (enough : heightOf ts ≤ fuel) :
    (Run.traverse ((Decoder.ref "tree").runElement definitions fuel (spot config place))
      ((toValues ts).zipIdx index)).Passes (toValues ts) (checksFrom place index ts) := by
  cases ts with
  | nil => exact ⟨rfl, rfl⟩
  | cons t rest =>
    rw [heightOf] at enough
    obtain ⟨fuel, rfl⟩ : ∃ less, fuel = less + 1 := ⟨fuel - 1, by omega⟩
    have arrived := passes_arrive place free index
    have lower : t.height ≤ fuel := by omega
    have rest_enough : heightOf rest ≤ fuel + 1 := by omega
    have first := passes_runAt free t (index :: place) lower
    have others := passes_elements free rest place (index + 1) rest_enough
    rw [toValues, List.zipIdx_cons, Run.traverse_cons, checksFrom]
    exact (arrived.next (passes_ref first)).bind (others.map _)

end

def AreAt (t : Nesting) (place : List Nat) (index : Nat) (ts : List Nesting) : Prop :=
  ∀ i e, ts[i]? = some e → t.At ((index + i) :: place) e

section

variable {root t : Nesting} {place : List Nat} {index : Nat} {ts : List Nesting}

theorem At.elements (stands : root.At place (.list ts)) : root.AreAt place 0 ts := by
  intro i e inner
  rw [Nat.zero_add]
  exact .element stands inner

theorem AreAt.head (stand : root.AreAt place index (t :: ts)) : root.At (index :: place) t :=
  stand 0 t rfl

theorem AreAt.tail (stand : root.AreAt place index (t :: ts)) :
    root.AreAt place (index + 1) ts := by
  intro i e inner
  rw [Nat.add_right_comm]
  exact stand (i + 1) e inner

end

theorem height_lt_of_element {ts : List Nesting} {index : Nat} {e : Nesting}
    (stands : ts[index]? = some e) : e.height + 1 ≤ heightOf ts := by
  induction ts generalizing index with
  | nil => cases stands
  | cons t rest ih =>
    rw [heightOf]
    cases index with
    | zero =>
      cases stands
      exact Nat.le_max_left _ _
    | succ index => exact Nat.le_trans (ih stands) (Nat.le_max_right _ _)

theorem At.length_le {t s : Nesting} {place : List Nat} (stands : t.At place s) :
    place.length + s.height ≤ t.height := by
  induction stands with
  | here => exact Nat.le_of_eq (Nat.zero_add _)
  | element _ inner ih =>
    have lower := height_lt_of_element inner
    rw [height] at ih
    rw [List.length_cons]
    omega

mutual

theorem height_le_of_places {root : Nesting} {k : Nat}
    (near : ∀ place s, root.At place s → place.length ≤ k) (t : Nesting) {place : List Nat}
    (stands : root.At place t) : place.length + t.height ≤ k := by
  cases t with
  | list elements =>
    exact heightOf_le_of_places near elements (near _ _ stands) stands.elements

theorem heightOf_le_of_places {root : Nesting} {k : Nat}
    (near : ∀ place s, root.At place s → place.length ≤ k) (ts : List Nesting) {place : List Nat}
    {index : Nat} (outer : place.length ≤ k) (stand : root.AreAt place index ts) :
    place.length + heightOf ts ≤ k := by
  cases ts with
  | nil => exact outer
  | cons t rest =>
    have first := height_le_of_places near t stand.head
    have others := heightOf_le_of_places near rest outer stand.tail
    rw [List.length_cons] at first
    rw [heightOf]
    omega

end

/-- What limits look at: how many elements a list has, and how deep an element is. -/
inductive Checked (t : Nesting) : Visit → Prop where
  | items : t.At place (.list elements) → Checked t ⟨.items, elements.length, path place⟩
  | depth : t.At (i :: place) e → Checked t ⟨.depth, (i :: place).length, path (i :: place)⟩

mutual

theorem checked_of_mem {root : Nesting} {x : Visit} (t : Nesting) {place : List Nat}
    (stands : root.At place t) (member : x ∈ t.checks place) : root.Checked x := by
  cases t with
  | list elements =>
    rcases List.mem_cons.mp member with rfl | inside
    · exact .items stands
    · exact checked_of_mem_elements elements stands.elements inside

theorem checked_of_mem_elements {root : Nesting} {x : Visit} (ts : List Nesting)
    {place : List Nat} {index : Nat} (stand : root.AreAt place index ts)
    (member : x ∈ checksFrom place index ts) : root.Checked x := by
  cases ts with
  | nil => cases member
  | cons t rest =>
    rcases List.mem_cons.mp member with rfl | inside
    · exact .depth stand.head
    · rcases List.mem_append.mp inside with first | others
      · exact checked_of_mem t stand.head first
      · exact checked_of_mem_elements rest stand.tail others

end

theorem checksFrom_of_element {ts : List Nesting} (place : List Nat) (index : Nat) {i : Nat}
    {e : Nesting} (stands : ts[i]? = some e) :
    ⟨.depth, ((index + i) :: place).length, path ((index + i) :: place)⟩ ::
      e.checks ((index + i) :: place) ⊆ checksFrom place index ts := by
  induction ts generalizing index i with
  | nil => cases stands
  | cons t rest ih =>
    rw [checksFrom]
    cases i with
    | zero =>
      cases stands
      exact List.cons_subset_cons _ (List.subset_append_left _ _)
    | succ i =>
      have later := ih (index + 1) stands
      rw [Nat.add_right_comm] at later
      refine List.Subset.trans later (List.Subset.trans ?_ (List.subset_cons_self _ _))
      exact List.subset_append_right _ _

theorem checks_of_element {ts : List Nesting} (place : List Nat) {i : Nat} {e : Nesting}
    (stands : ts[i]? = some e) :
    ⟨.depth, (i :: place).length, path (i :: place)⟩ :: e.checks (i :: place) ⊆
      checksFrom place 0 ts := by
  have inside := checksFrom_of_element place 0 stands
  rwa [Nat.zero_add] at inside

theorem At.checks_subset {t s : Nesting} {place : List Nat} (stands : t.At place s) :
    s.checks place ⊆ t.checks [] := by
  induction stands with
  | here => exact List.Subset.refl _
  | @element place _ _ _ _ inner ih =>
    have inside := List.Subset.trans (List.subset_cons_self _ _) (checks_of_element place inner)
    exact List.Subset.trans (List.Subset.trans inside (List.subset_cons_self _ _)) ih

/-- The checks are those of the elements and lists at all places. -/
theorem mem_checks {t : Nesting} {x : Visit} : x ∈ t.checks [] ↔ t.Checked x := by
  constructor
  · exact checked_of_mem t .here
  · intro checked
    cases checked with
    | items stands => exact stands.checks_subset List.mem_cons_self
    | depth stands =>
      cases stands with
      | element outer inner =>
        refine outer.checks_subset (List.mem_cons_of_mem _ ?_)
        exact checks_of_element _ inner List.mem_cons_self

def limits (k w : Nat) : Limits := ⟨.whole k, .whole w⟩

def request (k w : Nat) : LimitsRequest :=
  ⟨[(Aspect.depth.argument, .int k), (Aspect.items.argument, .int w)], none⟩

section

variable {k w n : Nat}

theorem ofRequest_request (depth : 0 < k) (items : 0 < w) :
    Limits.ofRequest (request k w) = .ok (limits k w) := by
  have arguments : Limits.ofRequest (request k w) = Limits.ofArguments (request k w).flat := rfl
  have checks : Limits.ofArguments (request k w).flat = (do
      let depth ← Limits.checked .depth (.int k)
      let items ← Limits.checked .items (.int w)
      return ⟨depth, items⟩) := rfl
  rw [arguments, checks, Limits.checked_whole depth, Limits.checked_whole items]
  rfl

theorem exceeds_depth (place : List Value) :
    Visit.exceeds (limits k w) ⟨.depth, n, place⟩ = true ↔ k < n :=
  Number.lt_whole.trans Nat.cast_lt

theorem exceeds_items (place : List Value) :
    Visit.exceeds (limits k w) ⟨.items, n, place⟩ = true ↔ w < n :=
  Number.lt_whole.trans Nat.cast_lt

mutual

/-- As depths rise by one at a time, the first that is over the limit is next to it. -/
theorem amount_of_first {x : Visit} (deep : x.aspect = .depth) (t : Nesting) (place : List Nat)
    (near : place.length ≤ k)
    (found : (t.checks place).find? (Visit.exceeds (limits k w)) = some x) :
    x.amount = k + 1 := by
  cases t with
  | list elements =>
    rw [checks, List.find?_cons] at found
    split at found
    · cases found
      cases deep
    · exact amount_of_first_element deep elements place 0 near found

theorem amount_of_first_element {x : Visit} (deep : x.aspect = .depth) (ts : List Nesting)
    (place : List Nat) (index : Nat) (near : place.length ≤ k)
    (found : (checksFrom place index ts).find? (Visit.exceeds (limits k w)) = some x) :
    x.amount = k + 1 := by
  cases ts with
  | nil => cases found
  | cons t rest =>
    rw [checksFrom, List.find?_cons, List.find?_append] at found
    split at found
    next exceeds =>
      cases found
      have excess := (exceeds_depth _).mp exceeds
      rw [List.length_cons] at excess
      simp only [List.length_cons]
      omega
    next within =>
      have inside : (index :: place).length ≤ k := by
        by_contra excess
        rw [(exceeds_depth _).mpr (Nat.lt_of_not_le excess)] at within
        cases within
      rcases Option.or_eq_some_iff.mp found with first | ⟨_, others⟩
      · exact amount_of_first deep t (index :: place) inside first
      · exact amount_of_first_element deep rest place (index + 1) near others

end

/-- Nothing is over the limits where the nesting is within them. -/
theorem forall_checks_iff (t : Nesting) :
    (∀ x ∈ t.checks [], x.exceeds (limits k w) = false) ↔
      t.height ≤ k ∧ ∀ place elements, t.At place (.list elements) → elements.length ≤ w := by
  have within (x : Visit) : x.exceeds (limits k w) = false ↔ ¬x.exceeds (limits k w) = true :=
    (Bool.not_eq_true _).symm.to_iff
  constructor
  · intro fits
    refine ⟨?_, ?_⟩
    · have near : ∀ place s, t.At place s → place.length ≤ k := by
        intro place s stands
        cases place with
        | nil => exact Nat.zero_le k
        | cons i place =>
          have fit := (within _).mp (fits _ (mem_checks.mpr (.depth stands)))
          exact not_lt.mp fun excess => fit ((exceeds_depth _).mpr excess)
      simpa using height_le_of_places near t .here
    · intro place elements stands
      have fit := (within _).mp (fits _ (mem_checks.mpr (.items stands)))
      exact not_lt.mp fun excess => fit ((exceeds_items _).mpr excess)
  · rintro ⟨low, narrow⟩ x member
    rw [within]
    cases mem_checks.mp member with
    | items stands =>
      intro excess
      exact absurd (narrow _ _ stands) ((exceeds_items _).mp excess).not_ge
    | depth stands =>
      intro excess
      have reached := stands.length_le
      have beyond := (exceeds_depth _).mp excess
      omega

/-- What limits refuse in a nesting, and the complaint: an element that is one too deep, or a
list with too many items. -/
inductive Violation (k w : Nat) (t : Nesting) : Visit → Fault → Prop where
  | deep : t.At place e → place.length = k + 1 →
      Violation k w t ⟨.depth, (k + 1 : Nat), path place⟩ (.located .limit
        ("Nesting depth " ++ toString (k + 1) ++ " exceeds limit " ++ toString k) (path place))
  | wide : t.At place (.list elements) → w < elements.length →
      Violation k w t ⟨.items, elements.length, path place⟩ (.located .limit
        ("Array item count " ++ toString elements.length ++ " exceeds limit " ++ toString w)
        (path place))

theorem Violation.fault_eq {t : Nesting} {x : Visit} {m : Fault} (violation : Violation k w t x m) :
    x.fault (limits k w) = m := by
  cases violation <;> rfl

theorem violation_of_first {t : Nesting} {x : Visit}
    (found : (t.checks []).find? (Visit.exceeds (limits k w)) = some x) :
    ∃ m, Violation k w t x m := by
  have exceeds := List.find?_some found
  cases mem_checks.mp (List.mem_of_find?_eq_some found) with
  | items stands => exact ⟨_, .wide stands ((exceeds_items _).mp exceeds)⟩
  | @depth i place e stands =>
    have amount : ((i :: place).length : Int) = k + 1 :=
      amount_of_first rfl t [] (Nat.zero_le k) found
    have next : (i :: place).length = k + 1 := Int.ofNat_inj.mp amount
    rw [next]
    exact ⟨_, .deep stands next⟩

theorem passes_free (logger : Option Logger) (t : Nesting) {fuel : Nat} (enough : t.height ≤ fuel) :
    (decoder.runAt definitions fuel t.toValue (.root ⟨none, logger⟩)).Passes t.toValue
      (t.checks []) := passes_runAt rfl t [] enough

theorem outcome_run (logger : Option Logger) (t : Nesting) {fuel : Nat} (l : Limits) :
    (decoder.run definitions fuel ⟨some l, logger⟩ t.toValue).outcome =
      ((decoder.runAt definitions fuel t.toValue (.root ⟨none, logger⟩)).truncate l
        ((Config.mk none logger).loggerFor .structures)).outcome := by
  have ignores : decoder.Everywhere (·.ignoresLimits) := by decide
  have within : definitions.Everywhere (·.ignoresLimits) := by decide
  have cut := Decoder.run_bounded ignores within fuel l logger t.toValue
  exact (congrArg Run.outcome cut).trans (Run.outcome_announced _ _)

end

/-- Without limits every nesting is given back. Limits let pass those that are neither higher
nor anywhere wider than they say, and refuse each other one for the first check that is over its
limit. -/
theorem nested_lists_within_limits (t : Nesting) (logger : Option Logger) {fuel : Nat}
    (enough : t.height ≤ fuel) :
    (decoder.run definitions fuel ⟨none, logger⟩ t.toValue).outcome = .ok t.toValue ∧
    ∀ k w, 0 < k → 0 < w → ∃ l, Limits.ofRequest (request k w) = .ok l ∧
      let bound := decoder.run definitions fuel ⟨some l, logger⟩ t.toValue
      let fits := t.height ≤ k ∧ ∀ place elements, t.At place (.list elements) →
        elements.length ≤ w
      (bound.outcome = .ok t.toValue ↔ fits) ∧
      (¬fits → ∃ x m, (t.checks []).find? (Visit.exceeds l) = some x ∧ Violation k w t x m ∧
        bound.outcome = .error (.fault m)) := by
  have free := passes_free logger t enough
  refine ⟨?_, ?_⟩
  · rw [Decoder.run, Run.outcome_announced]
    exact free.outcome
  · intro k w depth items
    refine ⟨limits k w, ofRequest_request depth items, ?_⟩
    intro bound fits
    have passed (inside : fits) : bound.outcome = .ok t.toValue := by
      have within := (forall_checks_iff t).mpr inside
      rw [← free.visits] at within
      rw [show bound.outcome = _ from outcome_run logger t _, Run.truncate_eq_self _ _ within]
      exact free.outcome
    have refused (outside : ¬fits) : ∃ x m, (t.checks []).find? (Visit.exceeds (limits k w)) =
        some x ∧ Violation k w t x m ∧ bound.outcome = .error (.fault m) := by
      have excess := mt (forall_checks_iff t).mp outside
      have found : ((t.checks []).find? (Visit.exceeds (limits k w))).isSome := by
        rw [List.find?_isSome]
        by_contra nowhere
        refine excess fun x member => ?_
        rw [← Bool.not_eq_true]
        exact fun high => nowhere ⟨x, member, high⟩
      obtain ⟨x, first⟩ := Option.isSome_iff_exists.mp found
      obtain ⟨m, violation⟩ := violation_of_first first
      refine ⟨x, m, first, violation, ?_⟩
      rw [← free.visits] at first
      rw [show bound.outcome = _ from outcome_run logger t _, Run.outcome_truncate_of_found _ first,
        violation.fault_eq]
    refine ⟨⟨fun given => ?_, passed⟩, refused⟩
    by_contra outside
    obtain ⟨_, _, _, _, failed⟩ := refused outside
    cases given.symm.trans failed

/-- An element that is too deep comes before a list that is too long. -/
theorem nested_lists_within_limits_first :
    let leaf : Nesting := .list []
    let t : Nesting := .list [.list [leaf], .list [leaf, leaf, leaf]]
    let l : Limits := ⟨.whole 1, .whole 2⟩
    t.height ≤ 2 ∧ Limits.ofRequest (request 1 2) = .ok l ∧
      (decoder.run definitions 2 ⟨none, none⟩ t.toValue).outcome = .ok t.toValue ∧
      (decoder.run definitions 2 ⟨some l, none⟩ t.toValue).outcome =
        .error (.fault (Visit.fault l ⟨.depth, 2, path [0, 0]⟩)) := by
  intro leaf t l
  have enough : t.height ≤ 2 := by decide
  obtain ⟨free, limited⟩ := nested_lists_within_limits t none enough
  obtain ⟨_, accepted, _, refused⟩ := limited 1 2 (by decide) (by decide)
  cases accepted
  obtain ⟨x, m, first, violation, outcome⟩ := refused fun fits => absurd fits.1 (by decide)
  cases first
  rw [← violation.fault_eq] at outcome
  exact ⟨enough, rfl, free, outcome⟩

end Nesting

end Intake
