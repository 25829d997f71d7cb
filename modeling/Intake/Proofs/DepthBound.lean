import Mathlib.Data.Rat.Floor
import Intake.Proofs.Fuel
import Intake.Proofs.Termination

/-! A finite limit on depth bounds how far references nest. Descents are checked before the
call, so depths rise to the limit and no further; between two descents the ranks of names fall.
-/
namespace Intake

namespace Run

theorem Ends.bind {r : Run α} {f : α → Run β} (first : r.Ends)
    (rest : ∀ a, r.outcome = .ok a → (f a).Ends) : (r.bind f).Ends := by
  obtain ⟨journal, outcome⟩ := r
  cases outcome with
  | ok a => exact rest a rfl
  | error stop =>
    intro exhausted
    cases exhausted
    exact first rfl

theorem Ends.rescue {r : Run α} {handler : Fault → Run α} (first : r.Ends)
    (rest : ∀ m, (handler m).Ends) : (r.rescue handler).Ends := by
  exact rescue_induction first fun m _ _ => rest m

theorem ends_traverse {f : β → Run α} {elements : List β} (each : ∀ b ∈ elements, (f b).Ends) :
    (traverse f elements).Ends := by
  induction elements with
  | nil => exact ends_pure _
  | cons b rest ih =>
    rw [traverse_cons]
    apply (each b List.mem_cons_self).bind
    intro a _
    exact (ih fun x member => each x (List.mem_cons_of_mem b member)).bind fun _ _ => ends_pure _

theorem ends_arrive (c : Context) : c.arrive.Ends :=
  (ends_emit _).bind fun _ _ => ends_check c _ _

theorem ends_count (c : Context) (size : Nat) : (c.count size).Ends :=
  (ends_emit _).bind fun _ _ => ends_check c _ _

end Run

def Congruence.ending (l : Limits) (depth : Int) : Congruence where
  contexts c _ := c.config.limits = some l ∧ depth ≤ c.depth
  rejections _ _ := True
  runs r _ := r.Ends
  push := by
    rintro c _ fragment ⟨limited, reached⟩
    rw [Context.config_push, Context.depth_push]
    exact ⟨limited, by omega⟩
  pure := Run.ends_pure _
  bind first rest := first.bind fun a _ => rest a
  rescue first rest := first.rescue fun m => rest m m trivial
  settle _ := Run.ends_settle _
  rejected _ _ := Run.ends_emit _
  arrive _ := Run.ends_arrive _
  count _ := Run.ends_count _ _

theorem Congruence.covers_ending (l : Limits) (depth : Int) (d : Decoder) (v : Value)
    (c c' : Context) : (ending l depth).Covers d v c c' :=
  ⟨fun _ _ => Run.ends_raise _, fun f _ w => Run.ends_call f w, fun _ => Run.ends_pure _⟩

theorem Context.depth_le_of_arrive {c : Context} {l : Limits} {limit : Rat}
    (limited : c.config.limits = some l) (finite : l.depth.quantity = .exactly limit)
    (arrived : c.arrive.outcome = .ok ()) : c.depth ≤ ⌊limit⌋ := by
  have within : Quantity.lt l.depth.quantity (.exactly c.depth) = false :=
    within_of_arrive limited arrived
  rw [finite] at within
  rw [Int.le_floor]
  exact not_lt.mp (of_decide_eq_false within)

namespace Decoder

variable {defs : Definitions} {l : Limits} {limit : Rat} {depth : Int} {base fuel : Nat}
  {rank : String → Nat}

/-- An object or an array ends as soon as its parts do at the places that they arrive at. -/
theorem body_ends_of_descends {d : Decoder} {resolve : String → Action} {v : Value} {c : Context}
    (descends : d.descends = true)
    (inner : ∀ e ∈ d.parts, ∀ w fragment, (c.push fragment).arrive.outcome = .ok () →
      (e.action resolve w (c.push fragment)).Ends) : (d.body resolve v c).Ends := by
  cases d with
  | object fields =>
    cases shape : v.entries? with
    | none =>
      rw [body, Action.object_of_none shape]
      exact Run.ends_raise _
    | some entries =>
      rw [body, Action.object_of_some shape, Run.traverse_map]
      refine Run.Ends.bind (Run.ends_traverse ?_) fun _ _ => Run.ends_pure _
      intro field member
      rw [Action.field_eq]
      apply (Run.ends_arrive _).bind
      intro _ arrived
      refine Run.Ends.bind ?_ fun _ _ => Run.ends_pure _
      exact inner field.2 (List.mem_map_of_mem (f := Prod.snd) member) _ _ arrived
  | array item =>
    cases shape : v.items? with
    | none =>
      rw [body, Action.array_of_none shape]
      exact Run.ends_raise _
    | some items =>
      rw [body, Action.array_of_some shape]
      apply (Run.ends_count c items.length).bind
      intro _ _
      refine Run.Ends.bind (Run.ends_traverse ?_) fun _ _ => Run.ends_pure _
      intro element _
      rw [Action.item_eq]
      apply (Run.ends_arrive _).bind
      exact fun _ arrived => inner item (List.mem_singleton_self _) _ _ arrived
  | _ => cases descends

/-- At one depth a decoder ends if its heads do and its parts further in. -/
theorem actions_end_of_heads
    (deeper : ∀ (e : Decoder) w c, c.config.limits = some l → depth < c.depth →
      c.arrive.outcome = .ok () → (e.runAt defs fuel w c).Ends)
    {d : Decoder} (heads : ∀ name, d.Heads name →
      (Congruence.ending l depth).actions (defs.resolve fuel name) (defs.resolve fuel name)) :
    (Congruence.ending l depth).actions (d.runAt defs fuel) (d.runAt defs fuel) := by
  induction d.everywhere_true with
  | @node d _ _ ih =>
    intro v c c' related
    apply (Congruence.ending l depth).entering (Run.ends_emit _)
    cases descends : d.descends with
    | true =>
      apply body_ends_of_descends descends
      intro e _ w fragment arrived
      have limited : (c.push fragment).config.limits = some l := related.1
      have further : depth < (c.push fragment).depth := by
        have reached : depth ≤ c.depth := related.2
        rw [Context.depth_push]
        omega
      exact deeper e w _ limited further arrived
    | false =>
      refine (Congruence.ending l depth).body ?_ ?_ related
        (Congruence.covers_ending l depth d v c c')
      · rintro name rfl
        exact heads name .ref
      · exact fun e member => ih e member fun name head => heads name (.part descends member head)

/-- At one depth names end with fuel for their rank, on top of what is enough further in. -/
theorem resolve_ends (falls : ∀ name next, defs.Leads name next → rank next < rank name)
    (deeper : ∀ fuel, base ≤ fuel → ∀ (e : Decoder) w c, c.config.limits = some l →
      depth < c.depth → c.arrive.outcome = .ok () → (e.runAt defs fuel w c).Ends)
    (name : String) (enough : base + rank name < fuel) :
    (Congruence.ending l depth).actions (defs.resolve fuel name) (defs.resolve fuel name) := by
  induction fuel generalizing name with
  | zero => omega
  | succ fuel ih =>
    cases found : defs.lookup name with
    | none =>
      simp only [Definitions.resolve, found]
      exact fun _ _ _ _ => Run.ends_raise _
    | some e =>
      simp only [Definitions.resolve, found]
      apply actions_end_of_heads (deeper fuel (by omega))
      intro next head
      have lower := falls name next ⟨e, found, head⟩
      exact ih next (by omega)

theorem runAt_ends_at (falls : ∀ name next, defs.Leads name next → rank next < rank name)
    (bounded : ∀ name, rank name ≤ defs.length)
    (deeper : ∀ fuel, base ≤ fuel → ∀ (e : Decoder) w c, c.config.limits = some l →
      depth < c.depth → c.arrive.outcome = .ok () → (e.runAt defs fuel w c).Ends)
    (enough : base + (defs.length + 1) ≤ fuel) (d : Decoder) (v : Value) {c : Context}
    (limited : c.config.limits = some l) (reached : depth ≤ c.depth) :
    (d.runAt defs fuel v c).Ends := by
  refine actions_end_of_heads (deeper fuel (by omega)) ?_ v c c ⟨limited, reached⟩
  intro name _
  have low := bounded name
  exact resolve_ends falls deeper name (by omega)

/-- From each depth to the limit, further descents take as much fuel again. -/
theorem runAt_ends_within (falls : ∀ name next, defs.Leads name next → rank next < rank name)
    (bounded : ∀ name, rank name ≤ defs.length) (finite : l.depth.quantity = .exactly limit)
    {descents : Nat} (enough : (descents + 1) * (defs.length + 1) ≤ fuel) (d : Decoder) (v : Value)
    {c : Context} (limited : c.config.limits = some l) (near : ⌊limit⌋ ≤ c.depth + descents) :
    (d.runAt defs fuel v c).Ends := by
  induction descents generalizing fuel d v c with
  | zero =>
    have reached : ⌊limit⌋ ≤ c.depth := by omega
    have enough : 0 + (defs.length + 1) ≤ fuel := by omega
    refine runAt_ends_at falls bounded ?_ enough d v limited reached
    intro _ _ e w c' limited deep arrived
    have shallow := Context.depth_le_of_arrive limited finite arrived
    omega
  | succ descents ih =>
    have reached : ⌊limit⌋ - (descents + 1) ≤ c.depth := by omega
    have split : (descents + 1 + 1) * (defs.length + 1) =
        (descents + 1) * (defs.length + 1) + (defs.length + 1) := Nat.succ_mul _ _
    refine runAt_ends_at falls bounded ?_ (split ▸ enough) d v limited reached
    intro fuel enough e w c' limited deep _
    exact ih enough e w limited (by omega)

/-- Under a finite limit on depth every run of guarded references ends, after following no
more references one inside another than there are depths within the limit, times one more
than there are definitions. -/
theorem limited_depth_ends (d : Decoder) (guarded : defs.Guarded)
    (finite : l.depth.quantity = .exactly limit) (logger : Option Logger) (v : Value) :
    Run.EndsBy ((⌊limit⌋.toNat + 1) * (defs.length + 1))
      fun fuel => d.run defs fuel ⟨some l, logger⟩ v := by
  obtain ⟨rank, falls, bounded⟩ := guarded.exists_rank
  have near : ⌊limit⌋ ≤ 0 + (⌊limit⌋.toNat : Int) := by omega
  have ends : (d.runAt defs ((⌊limit⌋.toNat + 1) * (defs.length + 1)) v
      (.root ⟨some l, logger⟩)).Ends :=
    runAt_ends_within falls bounded finite (Nat.le_refl _) d v rfl near
  refine Run.endsBy_of_ends ?_ fun fuel le => ?_
  · rwa [Run.Ends, run, Run.outcome_announced]
  · exact run_of_le le (by rwa [run, Run.outcome_announced])

/-- A recursion that feeds itself: each time its input is put into one more list. -/
theorem limited_depth_ends_growing :
    let wrap : Callback := .ofFunction "wrap" fun v => .list [v]
    let grow : Decoder := .push (.text "again") (.compose (.lift wrap) [.array (.ref "grow")])
    let defs : Definitions := [("grow", grow)]
    let l : Limits := ⟨.flag true, .whole 10⟩
    defs.Guarded ∧ l.depth.quantity = .exactly 1 ∧
      Run.EndsBy 4 (fun fuel => grow.run defs fuel ⟨some l, none⟩ .null) ∧
      ∃ base path, (grow.run defs 4 ⟨some l, none⟩ .null).outcome =
        .error (.fault (.located .limit base path)) := by
  intro wrap grow defs l
  have stages : ∀ e ∈ [.lift wrap, Decoder.array (.ref "grow")], ∀ name, ¬e.Heads name := by
    rw [List.forall_mem_cons, List.forall_mem_singleton]
    exact ⟨not_heads_of_parts rfl (List.forall_mem_nil _), not_heads_of_descends rfl⟩
  have headless : ∀ name, ¬grow.Heads name :=
    not_heads_of_parts rfl (List.forall_mem_singleton.mpr (not_heads_of_parts rfl stages))
  have guarded : defs.Guarded :=
    Definitions.guarded_of_no_heads (List.forall_mem_singleton.mpr headless)
  have finite : l.depth.quantity = .exactly 1 := rfl
  have ends := limited_depth_ends grow guarded finite none .null
  rw [Int.floor_one] at ends
  exact ⟨guarded, finite, ends, _, _, rfl⟩

end Decoder

end Intake
