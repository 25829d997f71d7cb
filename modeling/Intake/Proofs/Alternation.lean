import Intake.Proofs.Choice
import Intake.Proofs.Reporting

/-! Ordered choice between decoders. What the first option comes to that is no mismatch is what
the choice comes to, and a choice between choices is one between all of their options. -/
namespace Intake

def Event.shown : Event → Option Event
  | .called call => some (.called call)
  | .logged record => some (.logged record)
  | _ => none

def Event.spoken : Event → Option Event
  | .called call => some (.called call)
  | _ => none

namespace Decoder

/-- The options of an ordered choice are one list of decoders up to nesting: what stands for
choices in the first list are the options of those in the second. -/
inductive Flattens : List Decoder → List Decoder → Prop where
  | nil : Flattens [] []
  | option : Flattens options leaves → Flattens (d :: options) (d :: leaves)
  | group : nested ≠ [] → Flattens nested leaves → Flattens options others →
      Flattens (.alt nested :: options) (leaves ++ others)

theorem Flattens.leaves_ne_nil {options leaves : List Decoder} (flattens : Flattens options leaves)
    (inhabited : options ≠ []) : leaves ≠ [] := by
  induction flattens with
  | nil => exact inhabited
  | option => exact List.cons_ne_nil _ _
  | group some _ _ ih _ => exact List.append_ne_nil_of_left_ne_nil (ih some) _

variable {defs : Definitions} {fuel : Nat} {v : Value} {c : Context}

theorem runAt_alt_map (f : ι → Decoder) {items : List ι} {rejected : List (ι × Fault)}
    {closing : Run Value} (chooses : Run.Chooses (fun i => (f i).runAt defs fuel v c)
      (.raise (.mismatch (.text unexpectedData) c)) items rejected closing) :
    (alt (items.map f)).runAt defs fuel v c = ⟨.entered (.alt (items.map f)) c v ::
      ((rejected.flatMap fun x => ((f x.1).runAt defs fuel v c).journal ++
        [.logged (c.config.rejection (f x.1).name x.2)]) ++ closing.journal), closing.outcome⟩ := by
  rw [runAt_alt, Run.choose_map, chooses.choose_eq]
  rfl

/-- Apart from what is entered, an ordered choice is the choice between its options. -/
theorem seen_runAt_alt {see : Event → Option Event}
    (unentered : ∀ d c v, see (.entered d c v) = none) (options : List Decoder) :
    ((alt options).runAt defs fuel v c).seen see =
      Run.choose (fun option => (option.runAt defs fuel v c).seen see)
        (fun option m => [Event.logged (c.config.rejection option.name m)].filterMap see)
        (Run.seen see (.raise (.mismatch (.text unexpectedData) c))) none options := by
  rw [runAt_alt, Run.seen_bind, Run.seen_choose]
  have hidden : (Run.emit (.entered (alt options) c v)).seen see = Run.pure () := by
    simp only [Run.seen, Run.emit, List.filterMap_cons, unentered, List.filterMap_nil]
    rfl
  rw [hidden, Run.pure_bind]

/-- An ordered choice comes to what the first option comes to that is not rejected, to the
mismatch of the last option, or to a mismatch of its own when there is none. Nothing is left of
the options before but what they did and a record for each; those after are never run. -/
theorem alt_is_ordered_choice (options : List Decoder) (defs : Definitions) (fuel : Nat)
    (v : Value) (c : Context) :
    let run (option : Decoder) := option.runAt defs fuel v c
    let whole := (alt options).runAt defs fuel v c
    ∃ rejected closing, Run.Chooses run (.raise (.mismatch (.text unexpectedData) c)) options
        rejected closing ∧ whole.outcome = closing.outcome ∧
      whole.journal = .entered (.alt options) c v ::
        (rejected.flatMap fun x => (run x.1).journal ++ [.logged (c.config.rejection x.1.name x.2)])
          ++ closing.journal ∧
      whole.journal.calls =
        (rejected.flatMap fun x => (run x.1).journal.calls) ++ closing.journal.calls ∧
      whole.journal.records =
        (rejected.flatMap fun x => (run x.1).journal.records ++ [c.config.rejection x.1.name x.2])
          ++ closing.journal.records := by
  intro run whole
  obtain ⟨rejected, closing, chooses⟩ :=
    Run.exists_chooses run (.raise (.mismatch (.text unexpectedData) c)) options
  have chosen : whole = _ := runAt_alt_of_chooses chooses
  rw [chosen]
  exact ⟨rejected, closing, chooses, rfl, rfl, by simp [run], by simp [run]⟩

/-- Which options are nested is of no account for an observer of neither entries nor records. -/
theorem Flattens.seen_choose {see : Event → Option Event}
    (unentered : ∀ d c v, see (.entered d c v) = none)
    (unlogged : ∀ record, see (.logged record) = none) {options leaves : List Decoder}
    (flattens : Flattens options leaves) (last : Option Fault) :
    let run (d : Decoder) := (d.runAt defs fuel v c).seen see
    let nothing := Run.seen see (.raise (.mismatch (.text unexpectedData) c))
    Run.choose run (fun _ _ => []) nothing last options =
      Run.choose run (fun _ _ => []) nothing last leaves := by
  intro run nothing
  induction flattens generalizing last with
  | nil => rfl
  | option _ ih =>
    rw [Run.choose, Run.choose]
    exact congrArg _ (funext fun m => congrArg _ (funext fun _ => ih (some m)))
  | @group nested leaves options others some inside _ ih ih' =>
    have whole : run (.alt nested) = Run.choose run (fun _ _ => []) nothing none nested := by
      simp only [run, nothing, seen_runAt_alt unentered, List.filterMap_cons, unlogged,
        List.filterMap_nil]
    rw [Run.choose, Run.choose_append _ last (inside.leaves_ne_nil some), whole, ih none]
    exact congrArg _ (funext fun m => ih' (.some m))

theorem shown_runAt_flatten {groups : List (List Decoder)}
    (inhabited : ∀ group ∈ groups, group ≠ [])
    (chooses : Run.Chooses (fun group => (alt group).runAt defs fuel v c)
      (.raise (.mismatch (.text unexpectedData) c)) groups rejected closing) :
    ((alt groups.flatten).runAt defs fuel v c).seen Event.shown =
      ⟨(rejected.flatMap fun x => (((alt x.1).runAt defs fuel v c).seen Event.shown).journal) ++
        (closing.seen Event.shown).journal, closing.outcome⟩ := by
  have unentered : ∀ d c v, Event.shown (.entered d c v) = none := fun _ _ _ => rfl
  have each (group : List Decoder) : ((alt group).runAt defs fuel v c).seen Event.shown = _ :=
    seen_runAt_alt unentered group
  rw [each, Run.choose_flatten _ none inhabited, ← funext each,
    (chooses.seen Event.shown).choose_eq]
  simp only [List.append_nil]
  rfl

/-- To choose between choices is to choose between all of their options. -/
theorem alternation_flattens (defs : Definitions) (fuel : Nat) (v : Value) (c : Context) :
    (∀ groups : List (List Decoder), (∀ group ∈ groups, group ≠ []) →
      let run (group : List Decoder) := (alt group).runAt defs fuel v c
      let nested := (alt (groups.map alt)).runAt defs fuel v c
      let flat := (alt groups.flatten).runAt defs fuel v c
      nested.outcome = flat.outcome ∧ nested.journal.calls = flat.journal.calls ∧
        ∃ rejected closing, Run.Chooses run (.raise (.mismatch (.text unexpectedData) c)) groups
            rejected closing ∧
          nested.journal.records = (rejected.flatMap fun x =>
              (run x.1).journal.records ++ [c.config.rejection (alt x.1).name x.2]) ++
            closing.journal.records ∧
          flat.journal.records =
            (rejected.flatMap fun x => (run x.1).journal.records) ++ closing.journal.records) ∧
      ∀ options leaves, Flattens options leaves →
        ((alt options).runAt defs fuel v c).outcome = ((alt leaves).runAt defs fuel v c).outcome ∧
          ((alt options).runAt defs fuel v c).journal.calls =
            ((alt leaves).runAt defs fuel v c).journal.calls := by
  have calls (e : Event) : Journal.calls (Event.shown e).toList = Journal.calls [e] := by
    cases e <;> rfl
  have records (e : Event) : Journal.records (Event.shown e).toList = Journal.records [e] := by
    cases e <;> rfl
  have spoken (e : Event) : Journal.calls (Event.spoken e).toList = Journal.calls [e] := by
    cases e <;> rfl
  constructor
  · intro groups inhabited run nested flat
    obtain ⟨rejected, closing, chooses⟩ :=
      Run.exists_chooses run (.raise (.mismatch (.text unexpectedData) c)) groups
    have chosen : nested = _ := runAt_alt_map alt chooses
    have shown := shown_runAt_flatten inhabited chooses
    have outcome : (flat.seen Event.shown).outcome = closing.outcome := by rw [shown]
    refine ⟨?_, ?_, rejected, closing, chooses, ?_, ?_⟩
    · rw [chosen]
      exact outcome.symm
    · rw [← Run.projection_seen Journal.calls_append calls flat, shown, chosen]
      simp [Run.projection_seen Journal.calls_append calls]
    · simp [chosen, run]
    · rw [← Run.projection_seen Journal.records_append records flat, shown]
      simp [run, Run.projection_seen Journal.records_append records]
  · intro options leaves flattens
    have unentered : ∀ d c v, Event.spoken (.entered d c v) = none := fun _ _ _ => rfl
    have unlogged : ∀ record, Event.spoken (.logged record) = none := fun _ => rfl
    have same : Run.seen Event.spoken ((alt options).runAt defs fuel v c) =
        Run.seen Event.spoken ((alt leaves).runAt defs fuel v c) := by
      rw [seen_runAt_alt unentered, seen_runAt_alt unentered]
      exact flattens.seen_choose unentered unlogged none
    have outcomes := congrArg Run.outcome same
    refine ⟨outcomes, ?_⟩
    rw [← Run.projection_seen Journal.calls_append spoken, same,
      Run.projection_seen Journal.calls_append spoken]

/-- Two groups, the first of which rejects a text after it has called back. -/
theorem alternation_flattens_groups (defs : Definitions) :
    let f : Callback := ⟨some "f", fun v => ([⟨"f", v⟩], .ok v)⟩
    let groups : List (List Decoder) :=
      [[.compose (.lift f) [.fail (.text "m")], .fail (.text "n")], [.primitive .string]]
    let nested := (alt (groups.map alt)).runAt defs 0 (.text "x") (.root .default)
    let flat := (alt groups.flatten).runAt defs 0 (.text "x") (.root .default)
    (∀ group ∈ groups, group ≠ []) ∧ nested.outcome = flat.outcome ∧
      nested.journal.calls = flat.journal.calls ∧ flat.journal.calls = [⟨"f", .text "x"⟩] := by
  intro f groups nested flat
  have inhabited : ∀ group ∈ groups, group ≠ [] :=
    List.forall_mem_cons.mpr ⟨List.cons_ne_nil _ _,
      List.forall_mem_singleton.mpr (List.cons_ne_nil _ _)⟩
  have flattens := (alternation_flattens defs 0 (.text "x") (.root .default)).1 groups inhabited
  exact ⟨inhabited, flattens.1, flattens.2.1, rfl⟩

/-- A choice with no option has a mismatch of its own, and so is not to be left out. -/
example :
    ((alt [.fail (.text "m"), alt []]).runAt [] 0 .null (.root .default)).outcome =
      .error (.fault (.located .mismatch "Unexpected data" [])) ∧
    ((alt [.fail (.text "m")]).runAt [] 0 .null (.root .default)).outcome =
      .error (.fault (.located .mismatch "m" [])) := ⟨rfl, rfl⟩

end Decoder

end Intake
