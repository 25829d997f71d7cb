import Intake.Proofs.Congruence

/-! Runs as an observer sees them, who sees some events of a journal and the outcome. What is
seen of a run is put together from what is seen of its parts. -/
namespace Intake

namespace Run

/-- The run as an observer sees it: the events left out that give nothing. -/
def seen (see : Event → Option Event) (r : Run α) : Run α := ⟨r.journal.filterMap see, r.outcome⟩

/-- All that a caller sees is the same: the outcome, the tagged calls and the log. -/
structure LooksLike (r r' : Run α) : Prop where
  outcome : r.outcome = r'.outcome
  calls : r.journal.calls = r'.journal.calls
  records : r.journal.records = r'.journal.records

variable (see : Event → Option Event)

theorem seen_bind (r : Run α) (f : α → Run β) :
    (r.bind f).seen see = (r.seen see).bind fun a => (f a).seen see := by
  obtain ⟨journal, outcome⟩ := r
  cases outcome with
  | error stop => rfl
  | ok a => simp [seen, bind_ok]

theorem seen_rescue (r : Run α) (handler : Fault → Run α) :
    (r.rescue handler).seen see = (r.seen see).rescue fun m => (handler m).seen see := by
  obtain ⟨journal, outcome⟩ := r
  match outcome with
  | .ok a => rfl
  | .error .exhausted => rfl
  | .error (.fault m) =>
    cases mismatch : m.isMismatch with
    | false => simp [rescue, seen, mismatch]
    | true =>
      simp only [seen, rescue_of_mismatch _ mismatch]
      exact seen_bind see ⟨journal, .ok ()⟩ fun _ => handler m

variable {see : Event → Option Event}

theorem seen_bind_congr {r r' : Run α} {f f' : α → Run β} (first : r.seen see = r'.seen see)
    (rest : ∀ a, (f a).seen see = (f' a).seen see) :
    (r.bind f).seen see = (r'.bind f').seen see := by
  rw [seen_bind, seen_bind, first]
  exact congrArg _ (funext rest)

theorem seen_traverse_congr {f f' : α → Run β} {elements : List α}
    (each : ∀ a ∈ elements, (f a).seen see = (f' a).seen see) :
    (traverse f elements).seen see = (traverse f' elements).seen see := by
  induction elements with
  | nil => rfl
  | cons a rest ih =>
    rw [traverse_cons, traverse_cons]
    refine seen_bind_congr (each a List.mem_cons_self) fun b => ?_
    exact seen_bind_congr (ih fun x member => each x (List.mem_cons_of_mem a member)) fun _ => rfl

/-- A part of the journal that is all seen stays as it is. -/
theorem projection_seen {project : Journal → List β}
    (append : ∀ a b, project (a ++ b) = project a ++ project b)
    (all : ∀ e, project (see e).toList = project [e]) (r : Run α) :
    project (r.seen see).journal = project r.journal := by
  obtain ⟨journal, outcome⟩ := r
  change project (journal.filterMap see) = project journal
  induction journal with
  | nil => rfl
  | cons e rest ih =>
    have first : (e :: rest).filterMap see = (see e).toList ++ rest.filterMap see := by
      rw [List.filterMap_cons]
      cases see e <;> rfl
    rw [first, append, all, ih, ← append, List.singleton_append]

/-- Runs that look the same to an observer of all calls and records look the same to a caller. -/
theorem looksLike_of_seen {r r' : Run α}
    (calls : ∀ e, Journal.calls (see e).toList = Journal.calls [e])
    (records : ∀ e, Journal.records (see e).toList = Journal.records [e])
    (same : r.seen see = r'.seen see) : r.LooksLike r' := by
  have outcomes : (r.seen see).outcome = (r'.seen see).outcome := by rw [same]
  refine ⟨outcomes, ?_, ?_⟩
  · rw [← projection_seen Journal.calls_append calls r, same,
      projection_seen Journal.calls_append calls r']
  · rw [← projection_seen Journal.records_append records r, same,
      projection_seen Journal.records_append records r']

theorem seen_announced (logger : Logger) (records : ∀ record, see (.logged record) =
    some (.logged record)) (r : Run α) :
    (r.announced logger).seen see = (r.seen see).announced logger := by
  obtain ⟨journal, outcome⟩ := r
  match outcome with
  | .ok a => rfl
  | .error .exhausted => rfl
  | .error (.fault f) => cases located : f.isLocated <;> simp [announced, seen, located, records]

theorem seen_traverse_zipIdx {f : α × Nat → Run γ} {f' : β × Nat → Run γ} {items : List α}
    {others : List β} (start : Nat) (size : items.length = others.length)
    (each : ∀ i a b, items[i]? = some a → others[i]? = some b →
      (f (a, start + i)).seen see = (f' (b, start + i)).seen see) :
    (traverse f (items.zipIdx start)).seen see = (traverse f' (others.zipIdx start)).seen see := by
  induction items generalizing others start with
  | nil =>
    cases List.length_eq_zero_iff.mp size.symm
    rfl
  | cons a rest ih =>
    obtain ⟨b, later, rfl⟩ := List.exists_cons_of_length_eq_add_one size.symm
    rw [List.zipIdx_cons, List.zipIdx_cons, traverse_cons, traverse_cons]
    refine seen_bind_congr (each 0 a b rfl rfl) fun _ => ?_
    refine seen_bind_congr (ih (start + 1) (Nat.succ.inj size) ?_) fun _ => rfl
    intro i x y found found'
    rw [Nat.add_right_comm]
    exact each (i + 1) x y found found'

end Run

/-- Options that run alike are chosen from alike. -/
theorem Action.seen_alternatives {see : Event → Option Event} {a a' : Decoder → Action}
    {v w : Value} {c : Context} {options : List Decoder}
    (each : ∀ d ∈ options, (a d v c).seen see = (a' d w c).seen see) (last : Option Fault) :
    (alternatives last (options.map fun d => (d.name, a d)) v c).seen see =
      (alternatives last (options.map fun d => (d.name, a' d)) w c).seen see := by
  induction options generalizing last with
  | nil => cases last <;> rfl
  | cons d rest ih =>
    rw [List.map_cons, List.map_cons, alternatives_cons, alternatives_cons, Run.seen_rescue,
      Run.seen_rescue, each d List.mem_cons_self]
    refine congrArg _ (funext fun m => ?_)
    rw [Run.seen_bind, Run.seen_bind]
    refine congrArg _ (funext fun _ => ?_)
    exact ih (fun e member => each e (List.mem_cons_of_mem d member)) (some m)

end Intake
