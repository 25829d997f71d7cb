import Mathlib.Data.List.Forall2
import Intake.Proofs.Events
import Intake.Proofs.Observation
import Intake.Proofs.Outcome

/-! Arrays and objects run their parts from left to right, each one descent further in. The
first that gives no value is the last to be run (`Run.Gathers`). -/
namespace Intake

namespace Run

variable {ι : Type}

/-- What it comes to to run the items in order, and which of them are run at all: all of them,
each giving its value, or those up to and including the first that gives none. -/
inductive Gathers (run : ι → Run α) : List ι → List ι → Except Stop (List α) → Prop where
  | completed : List.Forall₂ (fun i a => (run i).outcome = .ok a) items values →
      Gathers run items items (.ok values)
  | stopped : (∀ j ∈ before, ∃ a, (run j).outcome = .ok a) → (run i).outcome = .error stop →
      Gathers run (before ++ i :: after) (before ++ [i]) (.error stop)

variable {run : ι → Run α} {items tried : List ι} {ending : Except Stop (List α)}

theorem bind_of_ok {r : Run α} {a : α} (given : r.outcome = .ok a) (f : α → Run β) :
    r.bind f = ⟨r.journal ++ (f a).journal, (f a).outcome⟩ := by simp only [Run.bind, given]

theorem bind_of_error {r : Run α} {stop : Stop} (failed : r.outcome = .error stop)
    (f : α → Run β) : r.bind f = ⟨r.journal, .error stop⟩ := by simp only [Run.bind, failed]

theorem exists_gathers (run : ι → Run α) (items : List ι) :
    ∃ tried ending, Gathers run items tried ending := by
  induction items with
  | nil => exact ⟨[], .ok [], .completed .nil⟩
  | cons i rest ih =>
    match first : (run i).outcome with
    | .error stop =>
      have nothing : ∀ x ∈ ([] : List ι), ∃ a, (run x).outcome = .ok a := List.forall_mem_nil _
      exact ⟨_, _, .stopped nothing first⟩
    | .ok a =>
      obtain ⟨tried, ending, gathers⟩ := ih
      cases gathers with
      | completed values => exact ⟨_, _, .completed (.cons first values)⟩
      | @stopped before j _ _ gave failed =>
        have all : ∀ x ∈ i :: before, ∃ a, (run x).outcome = .ok a :=
          List.forall_mem_cons.mpr ⟨⟨a, first⟩, gave⟩
        exact ⟨_, _, .stopped all failed⟩

theorem traverse_append (run : ι → Run α) (first rest : List ι) :
    traverse run (first ++ rest) = (traverse run first).bind fun values =>
      (traverse run rest).bind fun others => Run.pure (values ++ others) := by
  induction first with
  | nil => simp only [List.nil_append, traverse_nil, pure_bind, bind_pure]
  | cons i first ih => simp only [List.cons_append, traverse_cons, ih, bind_assoc, pure_bind]

theorem traverse_of_values {values : List α}
    (gives : List.Forall₂ (fun i a => (run i).outcome = .ok a) items values) :
    traverse run items = ⟨items.flatMap fun i => (run i).journal, .ok values⟩ := by
  induction gives with
  | nil => rfl
  | cons first _ ih => simp [traverse_cons, ih, bind_of_ok first, bind_ok, Run.pure]

theorem exists_values (gave : ∀ i ∈ items, ∃ a, (run i).outcome = .ok a) :
    ∃ values, List.Forall₂ (fun i a => (run i).outcome = .ok a) items values := by
  induction items with
  | nil => exact ⟨[], .nil⟩
  | cons i rest ih =>
    obtain ⟨⟨a, first⟩, others⟩ := List.forall_mem_cons.mp gave
    obtain ⟨values, gives⟩ := ih others
    exact ⟨a :: values, .cons first gives⟩

/-- The traversal leaves the journals of the items that are run, one after the other. -/
theorem Gathers.traverse_eq (gathers : Gathers run items tried ending) :
    traverse run items = ⟨tried.flatMap fun i => (run i).journal, ending⟩ := by
  cases gathers with
  | completed gives => exact traverse_of_values gives
  | stopped gave failed =>
    obtain ⟨values, gives⟩ := exists_values gave
    rw [traverse_append, traverse_of_values gives, traverse_cons, bind_of_error failed]
    simp [bind_ok, bind_error]

/-- Nothing that follows an item without a value is of account. -/
theorem traverse_of_failed {i : ι} {stop : Stop} (failed : (run i).outcome = .error stop)
    (before after : List ι) :
    traverse run (before ++ i :: after) = traverse run (before ++ [i]) := by
  simp only [traverse_append, traverse_cons, bind_of_error failed, bind_error]

theorem traverse_congr {run' : ι → Run α} (same : ∀ i ∈ items, run i = run' i) :
    traverse run items = traverse run' items := by
  induction items with
  | nil => rfl
  | cons i rest ih =>
    obtain ⟨first, others⟩ := List.forall_mem_cons.mp same
    rw [traverse_cons, traverse_cons, first, ih others]

theorem traverse_bind_pure (run : ι → Run α) (make : ι → α → β) (items : List ι) :
    traverse (fun i => (run i).bind fun a => Run.pure (make i a)) items =
      (traverse run items).bind fun values => Run.pure (List.zipWith make items values) := by
  induction items with
  | nil => rfl
  | cons i rest ih =>
    simp only [traverse_cons, ih, bind_assoc, pure_bind, List.zipWith_cons_cons]

structure IsSilent (r : Run Unit) : Prop where
  outcome : r.outcome = .ok ()
  calls : r.journal.calls = []
  records : r.journal.records = []

theorem IsSilent.bind {r r' : Run Unit} (first : r.IsSilent) (second : r'.IsSilent) :
    (r.bind fun _ => r').IsSilent := by
  rw [bind_of_ok first.outcome]
  exact ⟨second.outcome, by simp [first.calls, second.calls],
    by simp [first.records, second.records]⟩

/-- What is done after silent runs is all that a caller sees. -/
theorem looksLike_of_isSilent {opening opening' : Run Unit} (silent : opening.IsSilent)
    (silent' : opening'.IsSilent) (rest : Run α) :
    (opening.bind fun _ => rest).LooksLike (opening'.bind fun _ => rest) := by
  rw [bind_of_ok silent.outcome, bind_of_ok silent'.outcome]
  exact ⟨rfl, by simp [silent.calls, silent'.calls], by simp [silent.records, silent'.records]⟩

/-- The run is that of some parts in order, and puts together what they give. -/
def Assembles (part : ι → Run α) (items : List ι) (build : List α → β) (whole : Run β) : Prop :=
  ∃ tried ending, Gathers part items tried ending ∧ whole.outcome = ending.map build ∧
    whole.journal.calls = tried.flatMap (fun i => (part i).journal.calls) ∧
    whole.journal.records = tried.flatMap fun i => (part i).journal.records

theorem assembles_of_traverse {opening : Run Unit} (silent : opening.IsSilent)
    (part : ι → Run α) (items : List ι) (build : List α → β) :
    Assembles part items build
      (opening.bind fun _ => (traverse part items).bind fun values => Run.pure (build values)) := by
  obtain ⟨tried, ending, gathers⟩ := exists_gathers part items
  refine ⟨tried, ending, gathers, ?_⟩
  rw [bind_of_ok silent.outcome, gathers.traverse_eq]
  cases ending with
  | ok values => simp [bind_ok, Run.pure, silent.calls, silent.records, Except.map]
  | error stop => simp [bind_error, silent.calls, silent.records, Except.map]

theorem Assembles.exists_values {part : ι → Run α} {build : List α → β} {whole : Run β} {b : β}
    (assembles : Assembles part items build whole) (given : whole.outcome = .ok b) :
    ∃ values, List.Forall₂ (fun i a => (part i).outcome = .ok a) items values ∧
      b = build values := by
  obtain ⟨tried, ending, gathers, outcome, _, _⟩ := assembles
  rw [given] at outcome
  cases gathers with
  | stopped => cases outcome
  | completed values => exact ⟨_, values, Except.ok.inj outcome⟩

end Run

def Context.Admits (c : Context) (size : Nat) : Prop :=
  ∀ l, c.config.limits = some l → l.isExceeded .items (.whole size) = false

theorem Context.isSilent_count {c : Context} {size : Nat} (admits : c.Admits size) :
    (c.count size).IsSilent := by
  have counted : (c.check .items size) = Run.pure () := by
    unfold check
    split
    next => rfl
    next l limited => rw [if_neg (by simp [admits l limited])]; rfl
  have same : c.count size = Run.emit (.counted size c) := by
    change (Run.emit _).bind (fun _ => c.check .items size) = _
    rw [counted]
    exact Run.bind_pure _
  rw [same]
  exact ⟨rfl, rfl, rfl⟩

def Action.assembled (names results : List Value) : Value :=
  .mapping .plain ((names.zip results).filter fun entry => !entry.2.isAbsent)

/-- What is assembled holds no absent value, and no name but those given, which keep their order. -/
theorem Action.assembled_kept {names results : List Value} (size : names.length ≤ results.length) :
    ∃ kept, assembled names results = .mapping .plain kept ∧
      (kept.map Prod.fst).Sublist names ∧ ∀ entry ∈ kept, entry.2 ≠ .absent := by
  refine ⟨_, rfl, ?_, ?_⟩
  · have all := (List.filter_sublist (l := names.zip results)
      (p := fun entry => !entry.2.isAbsent)).map Prod.fst
    rwa [List.map_fst_zip size] at all
  · rintro ⟨name, result⟩ member rfl
    have present := (List.mem_filter.mp member).2
    cases present

namespace Decoder

/-- A decoder on a value one descent further in: the check of the depth, and then the call. -/
def runInside (d : Decoder) (defs : Definitions) (fuel : Nat) (c : Context) (fragment : String)
    (w : Value) : Run Value :=
  (c.push (.text fragment)).arrive.bind fun _ => d.runAt defs fuel w (c.push (.text fragment))

def runElement (item : Decoder) (defs : Definitions) (fuel : Nat) (c : Context)
    (element : Value × Nat) : Run Value :=
  item.runInside defs fuel c (Action.itemFragment element.2) element.1

def runField (defs : Definitions) (fuel : Nat) (c : Context) (entries : List (Value × Value))
    (field : Value × Decoder) : Run Value :=
  field.2.runInside defs fuel c (Action.fieldFragment field.1) (Value.lookup field.1 entries)

variable {defs : Definitions} {fuel : Nat} {c : Context} {v : Value}

theorem isSilent_entered (d : Decoder) (c : Context) (v : Value) :
    (Run.emit (.entered d c v)).IsSilent := ⟨rfl, rfl, rfl⟩

theorem runAt_eq_bind (d : Decoder) : d.runAt defs fuel v c =
    (Run.emit (.entered d c v)).bind fun _ => d.body (defs.resolve fuel) v c :=
  congrFun (congrFun (action_eq_entering _ _) v) c

theorem runAt_array {item : Decoder} {items : List Value} (shape : v.items? = some items) :
    (array item).runAt defs fuel v c =
      ((Run.emit (.entered (array item) c v)).bind fun _ => c.count items.length).bind fun _ =>
        (Run.traverse (item.runElement defs fuel c) items.zipIdx).bind fun results =>
          Run.pure (.list results) := by
  have each : Action.item (item.action (defs.resolve fuel)) c = item.runElement defs fuel c :=
    funext fun element => Action.item_eq _ c element
  rw [runAt_eq_bind, Run.bind_assoc, body, Action.array_of_some shape, each]

theorem runAt_object {fields : List (Value × Decoder)} {entries : List (Value × Value)}
    (shape : v.entries? = some entries) :
    (object fields).runAt defs fuel v c =
      (Run.emit (.entered (object fields) c v)).bind fun _ =>
        (Run.traverse (runField defs fuel c entries) fields).bind fun results =>
          Run.pure (Action.assembled (fields.map Prod.fst) results) := by
  have each (field : Value × Decoder) :
      Action.field entries c (field.1, field.2.action (defs.resolve fuel)) =
        (runField defs fuel c entries field).bind fun result => Run.pure (field.1, result) := by
    rw [Action.field_eq, runField, runInside, Run.bind_assoc]
    rfl
  rw [runAt_eq_bind, body, Action.object_of_some shape, Run.traverse_map, funext each,
    Run.traverse_bind_pure, Run.bind_assoc]
  simp only [Run.pure_bind, Action.assembled, List.zip, List.zipWith_map_left]

theorem looksLike_array {item : Decoder} {w x : Value} {before after after' : List Value}
    (shape : v.items? = some (before ++ x :: after))
    (shape' : w.items? = some (before ++ x :: after'))
    (admits : c.Admits (before ++ x :: after).length)
    (admits' : c.Admits (before ++ x :: after').length)
    (failed : (item.runElement defs fuel c (x, before.length)).outcome = .error stop) :
    ((array item).runAt defs fuel v c).LooksLike ((array item).runAt defs fuel w c) := by
  have cut (after : List Value) :
      Run.traverse (item.runElement defs fuel c) (before ++ x :: after).zipIdx =
        Run.traverse (item.runElement defs fuel c) (before.zipIdx ++ [(x, before.length)]) := by
    rw [List.zipIdx_append, List.zipIdx_cons, Nat.zero_add]
    exact Run.traverse_of_failed failed _ _
  rw [runAt_array shape, runAt_array shape', cut, cut]
  exact Run.looksLike_of_isSilent ((isSilent_entered _ _ _).bind (Context.isSilent_count admits))
    ((isSilent_entered _ _ _).bind (Context.isSilent_count admits')) _

theorem looksLike_object {w : Value} {before after : List (Value × Decoder)}
    {f : Value × Decoder} {entries others : List (Value × Value)}
    (shape : v.entries? = some entries) (shape' : w.entries? = some others)
    (agree : ∀ g ∈ before ++ [f], Value.lookup g.1 entries = Value.lookup g.1 others)
    (failed : (runField defs fuel c entries f).outcome = .error stop) :
    ((object (before ++ f :: after)).runAt defs fuel v c).LooksLike
      ((object (before ++ f :: after)).runAt defs fuel w c) := by
  have alike : ∀ g ∈ before ++ [f],
      runField defs fuel c entries g = runField defs fuel c others g := by
    intro g member
    rw [runField, runField, agree g member]
  have failed' : (runField defs fuel c others f).outcome = .error stop := by
    rwa [← alike f (by simp)]
  rw [runAt_object shape, runAt_object shape', Run.traverse_of_failed failed,
    Run.traverse_of_failed failed', Run.traverse_congr alike]
  exact Run.looksLike_of_isSilent (isSilent_entered _ _ _) (isSilent_entered _ _ _) _

/-- Elements are run in order, and so are fields, each one descent further in, up to the first
that gives no value. An object gives the results that are there, under the declared names. What
stands behind the first part without a value is of no account. -/
theorem structures_run_left_to_right (defs : Definitions) (fuel : Nat) (c : Context) :
    (∀ item v items, v.items? = some items → c.Admits items.length →
      Run.Assembles (item.runElement defs fuel c) items.zipIdx .list
        ((array item).runAt defs fuel v c)) ∧
    (∀ fields v entries, v.entries? = some entries →
      Run.Assembles (runField defs fuel c entries) fields (Action.assembled (fields.map Prod.fst))
        ((object fields).runAt defs fuel v c) ∧
      ∀ r, ((object fields).runAt defs fuel v c).outcome = .ok r →
        ∃ kept, r = .mapping .plain kept ∧ (kept.map Prod.fst).Sublist (fields.map Prod.fst) ∧
          ∀ entry ∈ kept, entry.2 ≠ .absent) ∧
    (∀ item v w before x after after' stop, v.items? = some (before ++ x :: after) →
      w.items? = some (before ++ x :: after') → c.Admits (before ++ x :: after).length →
      c.Admits (before ++ x :: after').length →
      (item.runElement defs fuel c (x, before.length)).outcome = .error stop →
      ((array item).runAt defs fuel v c).LooksLike ((array item).runAt defs fuel w c)) ∧
    ∀ before f after v w entries others stop, v.entries? = some entries →
      w.entries? = some others →
      (∀ g ∈ before ++ [f], Value.lookup g.1 entries = Value.lookup g.1 others) →
      (runField defs fuel c entries f).outcome = .error stop →
      ((object (before ++ f :: after)).runAt defs fuel v c).LooksLike
        ((object (before ++ f :: after)).runAt defs fuel w c) := by
  refine ⟨?_, ?_, ?_, ?_⟩
  · intro item v items shape admits
    rw [runAt_array shape]
    exact Run.assembles_of_traverse
      ((isSilent_entered _ _ _).bind (Context.isSilent_count admits)) _ _ _
  · intro fields v entries shape
    have assembles : Run.Assembles (runField defs fuel c entries) fields
        (Action.assembled (fields.map Prod.fst)) ((object fields).runAt defs fuel v c) := by
      rw [runAt_object shape]
      exact Run.assembles_of_traverse (isSilent_entered _ _ _) _ _ _
    refine ⟨assembles, ?_⟩
    intro r given
    obtain ⟨results, gives, rfl⟩ := assembles.exists_values given
    exact Action.assembled_kept (by simp [gives.length_eq])
  · exact fun _ _ _ _ _ _ _ _ => looksLike_array
  · exact fun _ _ _ _ _ _ _ _ => looksLike_object

/-- The second of three elements fails, at the limit for items, and so does the first field of
two, which is missing. -/
theorem structures_run_left_to_right_failing :
    let f : Callback := ⟨some "f", fun v => ([⟨"f", v⟩], .ok v)⟩
    let item : Decoder := .compose (.lift f) [.primitive .string]
    let c : Context := .root ⟨some ⟨.whole 1, .whole 3⟩, none⟩
    let run (v : Value) := (array item).runAt [] 0 v c
    let v : Value := .list [.text "a", .int 1, .text "b"]
    let pair := (object [(.text "x", item), (.text "y", item)]).runAt [] 0
    Run.Assembles (item.runElement [] 0 c) [(.text "a", 0), (.int 1, 1), (.text "b", 2)] .list
        (run v) ∧
      (run v).LooksLike (run (.tuple [.text "a", .int 1])) ∧
      (run v).journal.calls = [⟨"f", .text "a"⟩, ⟨"f", .int 1⟩] ∧
      (pair (.mapping .plain []) c).LooksLike
        (pair (.mapping .ordered [(.text "y", .null)]) c) := by
  intro f item c run v pair
  have admits {size : Nat}
      (within : Limits.isExceeded ⟨.whole 1, .whole 3⟩ .items (.whole size) = false) :
      c.Admits size := by
    intro l limited
    cases limited
    exact within
  obtain ⟨arrays, _, elements, fields⟩ := structures_run_left_to_right [] 0 c
  have missing : Value.lookup (.text "x") [(.text "y", .null)] = .absent := by cbv
  refine ⟨arrays item v _ rfl (admits rfl), ?_, rfl, ?_⟩
  · exact elements item v _ [.text "a"] (.int 1) [.text "b"] [] _ rfl rfl (admits rfl) (admits rfl)
      rfl
  · refine fields [] (.text "x", item) [_] _ _ [] [(.text "y", .null)] _ rfl rfl ?_ rfl
    exact List.forall_mem_singleton.mpr missing.symm

end Decoder

end Intake
