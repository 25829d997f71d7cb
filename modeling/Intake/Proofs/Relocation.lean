import Intake.Proofs.Congruence
import Intake.Proofs.Events

/-! Position independence. Without limits the run from any place is the run from an empty
context, put under the outer one: the place shows only where a path is shown. -/
namespace Intake

namespace Fault

/-- The fault as it is further in: a path goes on with the outer fragments. -/
def relocated (outer : List Value) : Fault → Fault
  | .located grade base path => .located grade base (path ++ outer)
  | f => f

@[simp] theorem isMismatch_relocated (f : Fault) (outer : List Value) :
    (f.relocated outer).isMismatch = f.isMismatch := by
  cases f with
  | located grade => cases grade <;> rfl
  | _ => rfl

theorem relocated_of_not_located {f : Fault} (plain : f.isLocated = false) (outer : List Value) :
    f.relocated outer = f := by
  cases f with
  | located => cases plain
  | _ => rfl

theorem relocated_locate (grade : Grade) (message : Value) (path outer : List Value) :
    (locate grade message path).relocated outer = locate grade message (path ++ outer) := by
  cases message <;> rfl

theorem message_relocated {f : Fault} (located : f.isLocated = true) (outer : List Value) :
    (f.relocated outer).message = locatedText f.message outer := by
  cases f with
  | located grade base path => exact locatedText_append base path outer
  | _ => cases located

/-- What stands in front of a message stands in front of it further in, too. -/
theorem locatedText_prepend (front base : String) (outer : List Value) :
    locatedText (front ++ base) outer = front ++ locatedText base outer := by
  induction outer generalizing base with
  | nil => rfl
  | cons fragment rest ih =>
    have next := ih (base ++ " in " ++ fragment.display)
    simpa only [locatedText, List.foldl_cons, String.append_assoc] using next

end Fault

def Stop.relocated (outer : List Value) : Stop → Stop
  | .fault f => .fault (f.relocated outer)
  | .exhausted => .exhausted

def Record.extended (outer : List Value) (record : Record) : Record :=
  { record with message := Fault.locatedText record.message outer }

def Event.relocated (outer : Context) : Event → Event
  | .entered d c v => .entered d (outer.pushAll c.fragments) v
  | .descended c => .descended (outer.pushAll c.fragments)
  | .counted size c => .counted size (outer.pushAll c.fragments)
  | .logged record => .logged (record.extended outer.fragments)
  | .raised f => .raised (f.relocated outer.fragments)
  | e => e

namespace Run

/-- The run as it is further in. -/
def relocated (outer : Context) (r : Run α) : Run α :=
  ⟨r.journal.map (Event.relocated outer), r.outcome.mapError (Stop.relocated outer.fragments)⟩

variable (outer : Context)

theorem relocated_ok (journal : Journal) (a : α) :
    (⟨journal, .ok a⟩ : Run α).relocated outer =
      ⟨journal.map (Event.relocated outer), .ok a⟩ := rfl

theorem relocated_fault (journal : Journal) (m : Fault) :
    (⟨journal, .error (.fault m)⟩ : Run α).relocated outer =
      ⟨journal.map (Event.relocated outer), .error (.fault (m.relocated outer.fragments))⟩ := rfl

theorem relocated_bind (r : Run α) (f : α → Run β) :
    (r.bind f).relocated outer = (r.relocated outer).bind fun a => (f a).relocated outer := by
  obtain ⟨journal, outcome⟩ := r
  cases outcome with
  | error stop => rfl
  | ok a =>
    simp only [relocated_ok, bind_ok]
    simp [relocated]

/-- A mismatch stays one further in, so the same alternatives are tried. -/
theorem relocated_rescue (r : Run α) {handler handler' : Fault → Run α}
    (same : ∀ m, m.isMismatch = true →
      handler' (m.relocated outer.fragments) = (handler m).relocated outer) :
    (r.rescue handler).relocated outer = (r.relocated outer).rescue handler' := by
  obtain ⟨journal, outcome⟩ := r
  match outcome with
  | .ok a => rfl
  | .error .exhausted => rfl
  | .error (.fault m) =>
    cases mismatch : m.isMismatch with
    | false => simp [rescue, relocated_fault, mismatch]
    | true =>
      have still : (m.relocated outer.fragments).isMismatch = true := by simp [mismatch]
      rw [rescue_of_mismatch _ mismatch, relocated_bind, ← same m mismatch]
      exact (rescue_of_mismatch _ still handler').symm

/-- A callback knows nothing of places; only a located fault of its own would change. -/
theorem relocated_call {f : Callback} {v : Value}
    (plain : ∀ m, (f.apply v).2 = .error m → m.isLocated = false) :
    (f.call v).relocated outer = f.call v := by
  unfold Callback.call
  generalize f.apply v = applied at plain
  obtain ⟨calls, result⟩ := applied
  have kept : (Event.invoked v :: calls.map Event.called).map (Event.relocated outer) =
      Event.invoked v :: calls.map Event.called := by
    simp [Event.relocated]
  cases result with
  | ok w => simp only [relocated_ok, kept]
  | error m =>
    have same := Fault.relocated_of_not_located (plain m rfl) outer.fragments
    simp only [relocated_fault, List.map_append, kept, same]
    simp [Event.relocated, same]

@[simp] theorem calls_relocated (r : Run α) :
    (r.relocated outer).journal.calls = r.journal.calls := by
  simp only [relocated, Journal.calls, List.filterMap_map]
  exact congrArg (fun f => r.journal.filterMap f) (funext fun e => by cases e <;> rfl)

@[simp] theorem records_relocated (r : Run α) :
    (r.relocated outer).journal.records =
      r.journal.records.map (Record.extended outer.fragments) := by
  simp only [relocated, Journal.records, List.filterMap_map, List.map_filterMap]
  exact congrArg (fun f => r.journal.filterMap f) (funext fun e => by cases e <;> rfl)

end Run

def Context.fresh (c : Context) : Context := .root c.config

theorem Context.fragments_fresh_pushAll (c : Context) (path : List Value) :
    (c.fresh.pushAll path).fragments = path := by
  have start : 0 ≤ c.fresh.depth := Int.le_refl 0
  rw [fragments_pushAll _ path start]
  exact List.append_nil path

/-- A rejection is worded further in as it is, with the outer fragments at its end. -/
theorem Action.rejection_relocated (name : String) {m : Fault} (mismatch : m.isMismatch = true)
    (outer : List Value) :
    rejection name (m.relocated outer) = Fault.locatedText (rejection name m) outer := by
  have located : m.isLocated = true := by
    cases m with
    | located => rfl
    | _ => cases mismatch
  simp only [rejection, Fault.message_relocated located, Fault.locatedText_prepend]

theorem Run.relocated_emit_check (outer : Context) {c c' : Context} {aspect : Aspect} {n n' : Int}
    {e e' : Event} (free : c.config.limits = none) (free' : c'.config.limits = none)
    (same : e.relocated outer = e') :
    ((emit e').bind fun _ => c'.check aspect n') =
      ((emit e).bind fun _ => c.check aspect n).relocated outer := by
  rw [Context.check_of_free free, Context.check_of_free free', ← same]
  rfl

def Congruence.relocation (outer : Context) (free : outer.config.limits = none) : Congruence where
  contexts c c' := ∃ path, c = outer.fresh.pushAll path ∧ c' = outer.pushAll path
  rejections m m' := m.isMismatch = true ∧ m' = m.relocated outer.fragments
  runs r r' := r' = r.relocated outer
  push := by
    rintro _ _ fragment ⟨path, rfl, rfl⟩
    exact ⟨fragment :: path, rfl, rfl⟩
  pure := rfl
  bind := by
    rintro _ r _ _ f f' rfl rest
    rw [Run.relocated_bind]
    exact congrArg _ (funext rest)
  rescue := by
    rintro _ r _ h h' rfl rest
    exact (Run.relocated_rescue outer r fun m mismatch => rest m _ ⟨mismatch, rfl⟩).symm
  settle := by
    rintro _ _ _ ⟨_, rfl⟩
    rfl
  rejected := by
    rintro _ _ m _ name ⟨path, rfl, rfl⟩ ⟨mismatch, rfl⟩
    simp only [Context.config_pushAll, Action.rejection_relocated name mismatch]
    rfl
  arrive := by
    rintro _ _ ⟨path, rfl, rfl⟩
    apply Run.relocated_emit_check outer
    · rwa [Context.config_pushAll]
    · rwa [Context.config_pushAll]
    · simp only [Event.relocated, Context.fragments_fresh_pushAll]
  count := by
    rintro _ _ size ⟨path, rfl, rfl⟩
    apply Run.relocated_emit_check outer
    · rwa [Context.config_pushAll]
    · rwa [Context.config_pushAll]
    · simp only [Event.relocated, Context.fragments_fresh_pushAll]

theorem Decoder.Raises.relocated {d : Decoder} {v : Value} {fault : Context → Fault}
    (raises : d.Raises v fault) {c c' : Context} {outer : List Value}
    (fragments : c'.fragments = c.fragments ++ outer) : fault c' = (fault c).relocated outer := by
  have refused (message : String) :
      Fault.refused v message c' = (Fault.refused v message c).relocated outer := by
    by_cases shown : v.isWritable = true
    · simp only [Fault.refused, shown, Fault.mismatch, fragments, Fault.relocated_locate,
        ↓reduceIte]
    · simp [Fault.refused, shown, Fault.relocated]
  have mismatch (message : Value) :
      Fault.mismatch message c' = (Fault.mismatch message c).relocated outer := by
    rw [Fault.mismatch, Fault.mismatch, fragments, Fault.relocated_locate]
  cases raises with
  | primitive | object | array => exact refused _
  | preCondition | postCondition | fail | failWith | alt => exact mismatch _
  | @forbid message =>
    change Fault.locate .limit message c'.fragments = _
    rw [fragments, Fault.relocated_locate]
  | broken => rfl

namespace Decoder

/-- Neither a report on the context nor a callback with a fault that is located. -/
def IsPlaceless (d : Decoder) : Prop :=
  d ≠ .inspect ∧ ∀ f ∈ d.callbacks, ∀ v m, (f.apply v).2 = .error m → m.isLocated = false

theorem isPlaceless_of_no_callbacks {d : Decoder} (placed : d ≠ .inspect)
    (quiet : d.callbacks = []) : d.IsPlaceless := by
  refine ⟨placed, ?_⟩
  intro f member
  rw [quiet] at member
  cases member

theorem covers_relocation {outer : Context} (counted : 0 ≤ outer.depth)
    (free : outer.config.limits = none) {d : Decoder} (placeless : d.IsPlaceless) {c c' : Context}
    (related : (Congruence.relocation outer free).contexts c c') :
    (Congruence.relocation outer free).Covers d v c c' where
  raise := by
    obtain ⟨path, rfl, rfl⟩ := related
    intro _ fault raises
    have fragments : (outer.pushAll path).fragments =
        (outer.fresh.pushAll path).fragments ++ outer.fragments := by
      rw [Context.fragments_pushAll _ _ counted, Context.fragments_fresh_pushAll]
    rw [raises.relocated fragments]
    rfl
  call := fun f member w => (Run.relocated_call outer (placeless.2 f member w)).symm
  inspect := fun same => absurd same placeless.1

/-- From any place the run is the one from an empty context, further in. -/
theorem runAt_relocated {defs : Definitions} {d : Decoder}
    (within : defs.Everywhere IsPlaceless) (everywhere : d.Everywhere IsPlaceless) (fuel : Nat)
    (v : Value) {outer : Context} (counted : 0 ≤ outer.depth)
    (free : outer.config.limits = none) :
    d.runAt defs fuel v outer = (d.runAt defs fuel v outer.fresh).relocated outer := by
  have acts :
      (Congruence.relocation outer free).actions (d.runAt defs fuel) (d.runAt defs fuel) := by
    apply Congruence.runAt _ rfl (fun _ _ _ => rfl) _ within fuel everywhere
    intro fuel e placeless w c c' related body
    apply Congruence.entering
    · obtain ⟨path, rfl, rfl⟩ := related
      simp [Congruence.relocation, Run.emit, Run.relocated_ok, Event.relocated,
        Context.fragments_fresh_pushAll]
    · exact body (covers_relocation counted free placeless related)
  exact acts v outer.fresh outer ⟨[], rfl, rfl⟩

/-- Under any fragments a decoder does what it does under none: it gives the same, calls
the same, tries the same alternatives, and each path that it shows goes on with them. -/
theorem position_independent {defs : Definitions} {d : Decoder}
    (within : defs.Everywhere IsPlaceless) (everywhere : d.Everywhere IsPlaceless) (fuel : Nat)
    (v : Value) (logger : Option Logger) (path : List Value) :
    let c := (Context.root ⟨none, logger⟩).pushAll path
    let alone := d.runAt defs fuel v (Context.root ⟨none, logger⟩)
    let placed := d.runAt defs fuel v c
    c.fragments = path ∧ placed = alone.relocated c ∧
      placed.outcome = alone.outcome.mapError (Stop.relocated path) ∧
      (∀ grade base inner, alone.outcome = .error (.fault (.located grade base inner)) →
        placed.outcome = .error (.fault (.located grade base (inner ++ path))) ∧
          Fault.message (.located grade base (inner ++ path)) =
            Fault.locatedText (Fault.locatedText base inner) path) ∧
      placed.journal.calls = alone.journal.calls ∧
      placed.journal.records = alone.journal.records.map (Record.extended path) := by
  intro c alone placed
  have fragments : c.fragments = path := Context.fragments_fresh_pushAll (.root ⟨none, logger⟩) path
  have counted : 0 ≤ c.depth := by
    have start : (Context.root ⟨none, logger⟩).depth = 0 := rfl
    rw [Context.depth_pushAll, start]
    omega
  have config : c.config = ⟨none, logger⟩ := Context.config_pushAll _ path
  have whole : placed = alone.relocated c := by
    have moved := runAt_relocated within everywhere fuel v counted (by rw [config])
    rwa [Context.fresh, config] at moved
  have outcome : placed.outcome = alone.outcome.mapError (Stop.relocated path) := by
    rw [whole, Run.relocated, fragments]
  refine ⟨fragments, whole, outcome, ?_, ?_, ?_⟩
  · intro grade base inner failed
    constructor
    · rw [outcome, failed]
      rfl
    · exact Fault.locatedText_append base inner path
  · rw [whole, Run.calls_relocated]
  · rw [whole, Run.records_relocated, fragments]

/-- The second element, rejected by both alternatives, is named by its place. -/
theorem position_independent_element :
    let wrap := Callback.ofFunction "wrap" fun v => .list [v]
    let d : Decoder := .array (.alt [.map (.primitive .number) wrap, .ref "flag"])
    let defs : Definitions := [("flag", .primitive .boolean)]
    let v : Value := .list [.int 1, .text "a"]
    let c := (Context.root .default).pushAll [.text "b", .text "c"]
    d.Everywhere IsPlaceless ∧ defs.Everywhere IsPlaceless ∧
      (d.runAt defs 1 v c).outcome = .error (.fault (.located .mismatch "Value a is not a boolean"
        [.text "array at index 1", .text "b", .text "c"])) := by
  intro wrap d defs v c
  have leaf (e : Decoder) (placed : e ≠ .inspect) (quiet : e.callbacks = []) (none : e.parts = []) :
      e.Everywhere IsPlaceless :=
    .node (isPlaceless_of_no_callbacks placed quiet) (by simp [none])
  have flag : (Decoder.primitive .boolean).Everywhere IsPlaceless := leaf _ (by simp) rfl rfl
  have number : (Decoder.primitive .number).Everywhere IsPlaceless := leaf _ (by simp) rfl rfl
  have wrapped : (Decoder.map (.primitive .number) wrap).Everywhere IsPlaceless := by
    refine .node ⟨by simp, ?_⟩ (by simpa [parts] using number)
    simp [callbacks, wrap, Callback.ofFunction, Callback.ofPartial]
  have everywhere : d.Everywhere IsPlaceless := by
    have ref : (Decoder.ref "flag").Everywhere IsPlaceless := leaf _ (by simp) rfl rfl
    have tries : (Decoder.alt [.map (.primitive .number) wrap, .ref "flag"]).Everywhere
        IsPlaceless := by
      refine .node (isPlaceless_of_no_callbacks (by simp) rfl) ?_
      simpa [parts] using ⟨wrapped, ref⟩
    exact .node (isPlaceless_of_no_callbacks (by simp [d]) rfl) (by simpa [d, parts] using tries)
  have within : defs.Everywhere IsPlaceless := by simpa [Definitions.Everywhere, defs] using flag
  refine ⟨everywhere, within, ?_⟩
  have alone : (d.runAt defs 1 v (.root .default)).outcome = .error
      (.fault (.located .mismatch "Value a is not a boolean" [.text "array at index 1"])) := rfl
  obtain ⟨_, _, _, located, _⟩ :=
    position_independent within everywhere 1 v none [.text "b", .text "c"]
  exact (located _ _ _ alone).1

end Decoder

end Intake
