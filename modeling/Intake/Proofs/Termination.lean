import Mathlib.Data.Finset.Card
import Mathlib.Logic.Relation
import Intake.Proofs.CallTree
import Intake.Proofs.Provenance

/-! When runs end. Calls go from an object or an array to something smaller, so where every
cycle of references passes through one of the two each chain of calls is finite. -/
namespace Intake

namespace Run

/-- From some fuel on the runs are all the same, and it ends. -/
def Settles (r : Nat → Run α) : Prop :=
  ∃ enough final, final.outcome ≠ .error .exhausted ∧ ∀ fuel, enough ≤ fuel → r fuel = final

/-- With so much fuel the run comes to its end, in a value or in a fault, and no more fuel
changes it. -/
def EndsBy (enough : Nat) (r : Nat → Run α) : Prop :=
  ∃ final, ((∃ a, final.outcome = .ok a) ∨ ∃ m, final.outcome = .error (.fault m)) ∧
    ∀ fuel, enough ≤ fuel → r fuel = final

def Ends (r : Run α) : Prop := r.outcome ≠ .error .exhausted

theorem endsBy_of_ends {r : Nat → Run α} {enough : Nat} (ends : (r enough).Ends)
    (same : ∀ fuel, enough ≤ fuel → r fuel = r enough) : EndsBy enough r := by
  refine ⟨r enough, ?_, same⟩
  match outcome : (r enough).outcome with
  | .ok a => exact .inl ⟨a, rfl⟩
  | .error (.fault m) => exact .inr ⟨m, rfl⟩
  | .error .exhausted => exact absurd outcome ends

theorem Settles.exists_endsBy {r : Nat → Run α} (settles : Settles r) :
    ∃ enough, EndsBy enough r := by
  obtain ⟨enough, final, ends, same⟩ := settles
  have last := same enough (Nat.le_refl enough)
  refine ⟨enough, endsBy_of_ends ?_ fun fuel le => (same fuel le).trans last.symm⟩
  rwa [last]

theorem settles_of_ends {r : Run α} (ends : r.Ends) : Settles fun _ => r :=
  ⟨0, r, ends, fun _ _ => rfl⟩

theorem ends_pure (a : α) : (Run.pure a).Ends := nofun

theorem ends_emit (e : Event) : (emit e).Ends := nofun

theorem ends_raise (f : Fault) : (raise f : Run α).Ends := nofun

theorem ends_settle (f : Fault) : (settle f : Run α).Ends := nofun

theorem ends_call (f : Callback) (v : Value) : (f.call v).Ends := by
  rw [Ends, Callback.outcome_call]
  intro exhausted
  cases given : (f.apply v).2 <;> rw [given] at exhausted <;> cases exhausted

theorem ends_check (c : Context) (aspect : Aspect) (n : Int) : (c.check aspect n).Ends := by
  intro exhausted
  unfold Context.check at exhausted
  split at exhausted
  · cases exhausted
  · split at exhausted <;> cases exhausted

theorem settles_pure (a : α) : Settles fun _ => Run.pure a := settles_of_ends (ends_pure a)

theorem settles_emit (e : Event) : Settles fun _ => emit e := settles_of_ends (ends_emit e)

theorem settles_raise (f : Fault) : Settles fun _ => (raise f : Run α) :=
  settles_of_ends (ends_raise f)

theorem Settles.bind {r : Nat → Run α} {f : Nat → α → Run β} (first : Settles r)
    (rest : ∀ a, Settles fun fuel => f fuel a) : Settles fun fuel => (r fuel).bind (f fuel) := by
  obtain ⟨enough, ⟨journal, outcome⟩, ends, same⟩ := first
  cases outcome with
  | error stop =>
    refine ⟨enough, ⟨journal, .error stop⟩, ?_, ?_⟩
    · intro exhausted
      cases exhausted
      exact ends rfl
    · intro fuel le
      simp only [same fuel le, bind_error]
  | ok a =>
    obtain ⟨more, final, ends', same'⟩ := rest a
    refine ⟨max enough more, ⟨journal ++ final.journal, final.outcome⟩, ends', ?_⟩
    intro fuel le
    have first := same fuel (by omega)
    have second := same' fuel (by omega)
    simp only [first, bind_ok, second]

theorem Settles.rescue {r : Nat → Run α} {handler : Nat → Fault → Run α} (first : Settles r)
    (rest : ∀ m, Settles fun fuel => handler fuel m) :
    Settles fun fuel => (r fuel).rescue (handler fuel) := by
  obtain ⟨enough, final, ends, same⟩ := first
  by_cases firm : final.IsFirm
  · refine ⟨enough, final, ends, ?_⟩
    intro fuel le
    simp only [same fuel le, rescue_of_firm firm]
  · obtain ⟨m, failed, mismatch⟩ := exists_mismatch_of_not_isFirm firm
    obtain ⟨journal, outcome⟩ := final
    cases failed
    obtain ⟨more, last, ends', same'⟩ := rest m
    refine ⟨max enough more, ⟨journal ++ last.journal, last.outcome⟩, ends', ?_⟩
    intro fuel le
    have first := same fuel (by omega)
    have second := same' fuel (by omega)
    simp only [first, rescue_of_mismatch _ mismatch, bind_ok, second]

theorem settles_traverse {f : Nat → β → Run α} {elements : List β}
    (each : ∀ b ∈ elements, Settles fun fuel => f fuel b) :
    Settles fun fuel => traverse (f fuel) elements := by
  induction elements with
  | nil => exact settles_pure _
  | cons b rest ih =>
    simp only [traverse_cons]
    apply (each b List.mem_cons_self).bind
    intro a
    apply (ih fun x member => each x (List.mem_cons_of_mem b member)).bind
    exact fun as => settles_pure _

theorem Settles.announced {r : Nat → Run α} (settles : Settles r) (logger : Logger) :
    Settles fun fuel => (r fuel).announced logger := by
  obtain ⟨enough, final, ends, same⟩ := settles
  refine ⟨enough, final.announced logger, ?_, ?_⟩
  · rwa [outcome_announced]
  · exact fun fuel le => congrArg (Run.announced logger) (same fuel le)

theorem Settles.later {r : Nat → Run α} (settles : Settles fun fuel => r (fuel + 1)) :
    Settles r := by
  obtain ⟨enough, final, ends, same⟩ := settles
  refine ⟨enough + 1, final, ends, ?_⟩
  intro fuel le
  obtain ⟨less, rfl⟩ : ∃ less, fuel = less + 1 := ⟨fuel - 1, by omega⟩
  exact same less (by omega)

theorem settles_call (f : Callback) (v : Value) : Settles fun _ => f.call v :=
  settles_of_ends (ends_call f v)

theorem settles_check (c : Context) (aspect : Aspect) (n : Int) :
    Settles fun _ => c.check aspect n := settles_of_ends (ends_check c aspect n)

theorem settles_arrive (c : Context) : Settles fun _ => c.arrive :=
  (settles_emit _).bind fun _ => settles_check c _ _

theorem settles_count (c : Context) (size : Nat) : Settles fun _ => c.count size :=
  (settles_emit _).bind fun _ => settles_check c _ _

theorem settles_require (predicate : Callback) (v : Value) (c : Context) :
    Settles fun _ => Action.require predicate v c := by
  apply (settles_call predicate v).bind
  intro message
  cases message.isNull with
  | true => exact settles_pure ()
  | false => exact settles_raise _

end Run

namespace Decoder

open Run (Settles)

variable {defs : Definitions} {d : Decoder} {v : Value} {c : Context}

theorem settles_stages {stages : List Decoder}
    (each : ∀ e ∈ stages, ∀ w, Settles fun fuel => e.runAt defs fuel w c) (w : Value) :
    Settles fun fuel => Action.compose (stages.map (action (defs.resolve fuel))) w c := by
  induction stages generalizing w with
  | nil => exact Run.settles_pure w
  | cons e rest ih =>
    apply (each e List.mem_cons_self w).bind
    exact ih fun x member => each x (List.mem_cons_of_mem e member)

theorem settles_alternatives {options : List Decoder} {last : Option Fault}
    (each : ∀ e ∈ options, Settles fun fuel => e.runAt defs fuel v c) :
    Settles fun fuel => Action.alternatives last
      (options.map fun e => (e.name, e.action (defs.resolve fuel))) v c := by
  induction options generalizing last with
  | nil =>
    cases last with
    | none => exact Run.settles_raise _
    | some m => exact Run.settles_of_ends (Run.ends_settle m)
  | cons e rest ih =>
    apply (each e List.mem_cons_self).rescue
    intro m
    refine Settles.bind (Run.settles_emit _) ?_
    exact fun _ => ih fun x member => each x (List.mem_cons_of_mem e member)

theorem body_settles (calls : ∀ fragment e w, d.Calls defs v fragment e w →
      Settles fun fuel => e.runAt defs fuel w (c.pushAll fragment)) :
    Settles fun fuel => d.body (defs.resolve fuel) v c := by
  cases d with
  | primitive p =>
    cases accepted : p.accept v with
    | ok w => simpa only [body, Action.primitive, accepted] using Run.settles_pure w
    | error message => simpa only [body, Action.primitive, accepted] using Run.settles_raise _
  | constant w => exact Run.settles_pure w
  | object fields =>
    cases shape : v.entries? with
    | none => simpa only [body, Action.object_of_none shape] using Run.settles_raise _
    | some entries =>
      simp only [body, Action.object_of_some shape, Run.traverse_map]
      refine Settles.bind (Run.settles_traverse ?_) fun _ => Run.settles_pure _
      intro field member
      simp only [Action.field_eq]
      apply (Run.settles_arrive _).bind
      intro _
      apply (calls _ field.2 _ (.field shape member)).bind
      exact fun _ => Run.settles_pure _
  | array item =>
    cases shape : v.items? with
    | none => simpa only [body, Action.array_of_none shape] using Run.settles_raise _
    | some items =>
      simp only [body, Action.array_of_some shape]
      apply (Run.settles_count c items.length).bind
      intro _
      refine Settles.bind (Run.settles_traverse ?_) fun _ => Run.settles_pure _
      intro element member
      have found : items[element.2]? = some element.1 := List.mem_zipIdx_iff_getElem?.mp member
      simp only [Action.item_eq]
      apply (Run.settles_arrive _).bind
      exact fun _ => calls _ item element.1 (.element element.2 shape found)
  | optional of =>
    simp only [body, Action.optional]
    split
    · exact Run.settles_pure _
    · exact calls _ of v .optional
  | nullable of =>
    simp only [body, Action.nullable]
    split
    · exact Run.settles_pure _
    · exact calls _ of v .nullable
  | withDefault of instead =>
    apply (calls _ of v .withDefault).bind
    intro w
    cases w.isPresent with
    | true => exact Run.settles_pure w
    | false =>
      cases instead with
      | value x => exact Run.settles_pure x
      | supplier f => exact Run.settles_call f .null
  | map of f => exact (calls _ of v .map).bind fun w => Run.settles_call f w
  | lift f => exact Run.settles_call f v
  | compose first rest =>
    apply (calls _ first v .first).bind
    exact settles_stages fun e member w => calls _ e w (.stage member)
  | preCondition of predicate =>
    apply (Run.settles_require predicate v c).bind
    exact fun _ => calls _ of v .preCondition
  | postCondition of predicate =>
    apply (calls _ of v .postCondition).bind
    intro w
    apply (Run.settles_require predicate w c).bind
    exact fun _ => Run.settles_pure w
  | fail message => exact Run.settles_raise _
  | failWith f => exact (Run.settles_call f v).bind fun _ => Run.settles_raise _
  | alt options => exact settles_alternatives fun e member => calls _ e v (.option member)
  | named label of => exact calls _ of v .named
  | inspect => exact Run.settles_pure _
  | ref name =>
    apply Settles.later
    cases found : defs.lookup name with
    | none =>
      simp only [body, Definitions.resolve, found]
      exact Run.settles_raise _
    | some e =>
      simp only [body, Definitions.resolve, found]
      exact calls _ e v (.ref found)
  | push fragment of => exact calls _ of v .push
  | forbid message => exact Run.settles_raise _
  | broken w => exact Run.settles_raise _

def Called (defs : Definitions) (callee caller : Decoder × Value) : Prop :=
  ∃ fragment, caller.1.Calls defs caller.2 fragment callee.1 callee.2

/-- Without an endless chain of calls the run settles, wherever it stands. -/
theorem runAt_settles {start : Decoder × Value} (finite : Acc (Called defs) start) (c : Context) :
    Settles fun fuel => start.1.runAt defs fuel start.2 c := by
  induction finite generalizing c with
  | intro start _ ih =>
    simp only [runAt, action_eq_entering]
    change Settles fun fuel => (Run.emit (.entered start.1 c start.2)).bind fun _ =>
      start.1.body (defs.resolve fuel) start.2 c
    refine Settles.bind (Run.settles_emit _) fun _ => ?_
    apply body_settles
    exact fun fragment e w calls => ih (e, w) ⟨fragment, calls⟩ (c.pushAll fragment)

end Decoder

namespace Decoder

def descends : Decoder → Bool
  | .object _ | .array _ => true
  | _ => false

def laterStages : Decoder → List Decoder
  | .compose _ rest => rest
  | _ => []

def isReference : Decoder → Bool
  | .ref _ => true
  | _ => false

/-- No reference runs on what another part gave. -/
def isStaged (d : Decoder) : Bool := d.laterStages.all (every fun e => !e.isReference)

/-- The references that a decoder may follow before it reaches a field or an element. -/
inductive Heads : Decoder → String → Prop where
  | ref : Heads (.ref target) target
  | part : d.descends = false → e ∈ d.parts → Heads e target → Heads d target

theorem not_heads_of_descends {d : Decoder} (descends : d.descends = true) (name : String) :
    ¬d.Heads name := by
  intro heads
  cases heads with
  | ref => cases descends
  | part flat =>
    rw [flat] at descends
    cases descends

theorem not_heads_of_parts {d : Decoder} (plain : d.isReference = false)
    (parts : ∀ e ∈ d.parts, ∀ name, ¬e.Heads name) (name : String) : ¬d.Heads name := by
  intro heads
  cases heads with
  | ref => cases plain
  | part _ member inner => exact parts _ member name inner

end Decoder

namespace Definitions

def Leads (defs : Definitions) (name next : String) : Prop :=
  ∃ d, defs.lookup name = some d ∧ d.Heads next

/-- Every cycle of references passes through a field or an element. -/
def Guarded (defs : Definitions) : Prop := ∀ name, ¬Relation.TransGen defs.Leads name name

theorem guarded_of_no_heads {defs : Definitions}
    (headless : ∀ entry ∈ defs, ∀ name, ¬entry.2.Heads name) : defs.Guarded := by
  have ends (name next : String) : ¬defs.Leads name next := by
    rintro ⟨d, found, heads⟩
    obtain ⟨before, after, rfl, _⟩ := List.lookup_eq_some_iff.mp found
    exact headless (name, d) (by simp) next heads
  intro name cycle
  cases cycle with
  | single leads => exact ends _ _ leads
  | tail _ leads => exact ends _ _ leads

theorem guarded_of_descends {defs : Definitions}
    (descends : ∀ entry ∈ defs, entry.2.descends = true) : defs.Guarded :=
  guarded_of_no_heads fun entry member => Decoder.not_heads_of_descends (descends entry member)

theorem Leads.mem_names {defs : Definitions} {name next : String} (leads : defs.Leads name next) :
    name ∈ defs.map Prod.fst := by
  obtain ⟨d, found, _⟩ := leads
  obtain ⟨before, after, rfl, _⟩ := List.lookup_eq_some_iff.mp found
  simp

/-- Without a cycle each name has a rank, the number of definitions that can be reached from
it, and a name only leads to names of a lower rank. -/
theorem Guarded.exists_rank {defs : Definitions} (guarded : defs.Guarded) :
    ∃ rank : String → Nat, (∀ name next, defs.Leads name next → rank next < rank name) ∧
      ∀ name, rank name ≤ defs.length := by
  classical
  let names := (defs.map Prod.fst).toFinset
  let reached (name : String) := names.filter (Relation.ReflTransGen defs.Leads name)
  refine ⟨fun name => (reached name).card, ?_, ?_⟩
  · intro name next leads
    apply Finset.card_lt_card
    rw [Finset.ssubset_iff_of_subset]
    · have self : name ∈ reached name :=
        Finset.mem_filter.mpr ⟨List.mem_toFinset.mpr leads.mem_names, .refl⟩
      refine ⟨name, self, ?_⟩
      intro returned
      exact guarded name (.head' leads (Finset.mem_filter.mp returned).2)
    · intro other member
      obtain ⟨named, path⟩ := Finset.mem_filter.mp member
      exact Finset.mem_filter.mpr ⟨named, .head leads path⟩
  · intro name
    calc (reached name).card ≤ names.card := Finset.card_filter_le _ _
      _ ≤ (defs.map Prod.fst).length := List.toFinset_card_le _
      _ = defs.length := List.length_map _

/-- Finitely many names and no cycle: no endless chain. -/
theorem Guarded.wellFounded {defs : Definitions} (guarded : defs.Guarded) :
    WellFounded fun next name => defs.Leads name next := by
  obtain ⟨rank, falls, _⟩ := guarded.exists_rank
  exact Subrelation.wf (falls _ _) (measure rank).wf

end Definitions

theorem Value.sizeOf_lookup_lt {v key : Value} {entries : List (Value × Value)}
    (shape : v.entries? = some entries) : sizeOf (Value.lookup key entries) < sizeOf v := by
  have bounded : sizeOf (Value.lookup key entries) ≤ sizeOf entries := by
    clear shape
    induction entries with
    | nil => simp [lookup, find?]
    | cons entry rest ih =>
      obtain ⟨k, w⟩ := entry
      unfold lookup find?
      split
      · simp
        omega
      · change sizeOf (Value.lookup key rest) ≤ _
        simp
        omega
  cases v <;> cases shape
  rw [Value.mapping.sizeOf_spec]
  omega

theorem Value.sizeOf_element_lt {v w : Value} {items : List Value} {index : Nat}
    (shape : v.items? = some items) (found : items[index]? = some w) : sizeOf w < sizeOf v := by
  have inside := List.sizeOf_lt_of_mem (List.mem_of_getElem? found)
  cases v <;> cases shape
  · rw [Value.list.sizeOf_spec]
    omega
  · rw [Value.tuple.sizeOf_spec]
    omega

namespace Decoder

variable {defs : Definitions} {d : Decoder} {v : Value}

/-- A call goes to something smaller, to a part on the same value, to a later stage or
through a reference. -/
theorem Calls.cases {fragment : List Value} {e : Decoder} {w : Value}
    (calls : d.Calls defs v fragment e w) :
    (e ∈ d.parts ∧ sizeOf w < sizeOf v) ∨
      (e ∈ d.parts ∧ d.descends = false ∧ w = v) ∨
      (e ∈ d.parts ∧ e ∈ d.laterStages) ∨
      ∃ name, d = .ref name ∧ defs.lookup name = some e ∧ w = v := by
  cases calls with
  | field shape member =>
    exact .inl ⟨List.mem_map_of_mem (f := Prod.snd) member, Value.sizeOf_lookup_lt shape⟩
  | element index shape found =>
    exact .inl ⟨List.mem_singleton_self _, Value.sizeOf_element_lt shape found⟩
  | stage member => exact .inr (.inr (.inl ⟨List.mem_cons_of_mem _ member, member⟩))
  | first => exact .inr (.inl ⟨List.mem_cons_self, rfl, rfl⟩)
  | option member => exact .inr (.inl ⟨member, rfl, rfl⟩)
  | ref found => exact .inr (.inr (.inr ⟨_, rfl, found, rfl⟩))
  | _ => exact .inr (.inl ⟨List.mem_singleton_self _, rfl, rfl⟩)

/-- Without references a chain of calls goes down in the decoder. -/
theorem acc_of_no_reference (closed : d.Everywhere fun e => !e.isReference) (v : Value) :
    Acc (Called defs) (d, v) := by
  induction closed generalizing v with
  | node here _ ih =>
    apply Acc.intro
    rintro ⟨e, w⟩ ⟨fragment, calls⟩
    rcases calls.cases with ⟨inside, _⟩ | ⟨inside, _⟩ | ⟨inside, _⟩ | ⟨name, rfl, _⟩
    · exact ih e inside w
    · exact ih e inside w
    · exact ih e inside w
    · cases here

/-- With references a chain of calls goes down in the value, and on one value in the
decoder until it follows a head. -/
theorem acc_of_heads (everywhere : d.Everywhere fun e => e.isStaged)
    (smaller : ∀ w, sizeOf w < sizeOf v → ∀ e : Decoder, e.Everywhere (fun e => e.isStaged) →
      Acc (Called defs) (e, w))
    (heads : ∀ name, d.Heads name → ∀ e, defs.lookup name = some e → Acc (Called defs) (e, v)) :
    Acc (Called defs) (d, v) := by
  induction everywhere with
  | node here parts ih =>
    apply Acc.intro
    rintro ⟨e, w⟩ ⟨fragment, calls⟩
    rcases calls.cases with ⟨inside, lt⟩ | ⟨inside, flat, rfl⟩ | ⟨_, later⟩ | ⟨name, rfl, found, rfl⟩
    · exact smaller w lt e (parts e inside)
    · exact ih e inside fun name head => heads name (.part flat inside head)
    · exact acc_of_no_reference (every_iff.mp (List.all_eq_true.mp here e later)) w
    · exact heads name .ref e found

theorem acc_of_guarded (guarded : defs.Guarded) (within : defs.Everywhere fun e => e.isStaged)
    (everywhere : d.Everywhere fun e => e.isStaged) : Acc (Called defs) (d, v) := by
  induction v using (measure (sizeOf : Value → Nat)).wf.induction generalizing d with
  | _ v smaller =>
    have smaller (w : Value) (lt : sizeOf w < sizeOf v) (e : Decoder)
        (everywhere : e.Everywhere fun e => e.isStaged) := smaller w lt everywhere
    have names (name : String) (e : Decoder) (found : defs.lookup name = some e) :
        Acc (Called defs) (e, v) := by
      induction name using guarded.wellFounded.induction generalizing e with
      | _ name earlier =>
        apply acc_of_heads (Definitions.everywhere_of_lookup within found) smaller
        exact fun head heads => earlier head ⟨e, found, heads⟩
    exact acc_of_heads everywhere smaller fun name _ => names name

theorem runAt_settles_of_guarded (guarded : defs.Guarded)
    (within : defs.Everywhere fun e => e.isStaged) (everywhere : d.Everywhere fun e => e.isStaged)
    (v : Value) (c : Context) : Run.Settles fun fuel => d.runAt defs fuel v c :=
  runAt_settles (acc_of_guarded guarded within everywhere) c

/-- Without limits the run ends on every value, also where a key is missing and the decoder
of the field is on the absent mark, which is no part of the value. -/
theorem guarded_references_end (guarded : defs.Guarded)
    (within : defs.Everywhere fun e => e.isStaged) (everywhere : d.Everywhere fun e => e.isStaged)
    (logger : Option Logger) (v : Value) :
    (∃ enough, Run.EndsBy enough fun fuel => d.run defs fuel ⟨none, logger⟩ v) ∧
      ∀ fields key e entries, d = .object fields → (key, e) ∈ fields →
        v.entries? = some entries → Value.find? key entries = none →
          d.Calls defs v [.text (Action.fieldFragment key)] e .absent ∧
            ∀ c, ∃ enough, Run.EndsBy enough fun fuel => e.runAt defs fuel .absent c := by
  constructor
  · have settles := runAt_settles_of_guarded guarded within everywhere v (.root ⟨none, logger⟩)
    exact (settles.announced _).exists_endsBy
  · rintro fields key e entries rfl member shape missing
    have unsupplied : Value.lookup key entries = .absent := by
      rw [Value.lookup, missing, Option.getD_none]
    refine ⟨unsupplied ▸ .field shape member, ?_⟩
    intro c
    cases everywhere with
    | node _ parts =>
      have inside := parts e (List.mem_map_of_mem (f := Prod.snd) member)
      exact (runAt_settles_of_guarded guarded within inside .absent c).exists_endsBy

/-- A recursive object without its recursive key, which is looked for twice. -/
theorem guarded_references_end_missing :
    let next : Decoder := .compose (.alt [.array (.ref "node"), .ref "node"]) [.primitive .unknown]
    let node : Decoder := .object [(.text "next", next)]
    let defs : Definitions := [("node", node)]
    let v : Value := .mapping .readOnly []
    defs.Guarded ∧ (∃ enough, Run.EndsBy enough fun fuel => node.run defs fuel .default v) ∧
      ∃ enough, Run.EndsBy enough fun fuel => next.runAt defs fuel .absent (.root .default) := by
  intro next node defs v
  have guarded : defs.Guarded := Definitions.guarded_of_descends (by decide)
  have within : defs.Everywhere fun e => e.isStaged := by decide
  have everywhere : node.Everywhere fun e => e.isStaged := by decide
  obtain ⟨ends, missing⟩ := guarded_references_end guarded within everywhere none v
  have absent := missing _ (.text "next") next [] rfl List.mem_cons_self rfl rfl
  exact ⟨guarded, ends, absent.2 _⟩

end Decoder

end Intake
