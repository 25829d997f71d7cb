import Intake.Proofs.Events
import Intake.Proofs.Observation

/-! Limits only truncate. A run under limits is the run without them up to the first descent or
count over its limit, whatever alternatives were tried on the way. -/
namespace Intake

/-- A number that limits look at: the depth of a field or element, or a count of items. -/
structure Visit where
  aspect : Aspect
  amount : Int
  path : List Value

namespace Visit

def exceeds (l : Limits) (x : Visit) : Bool := l.isExceeded x.aspect (.whole x.amount)

def fault (l : Limits) (x : Visit) : Fault :=
  .located .limit (l.complaint x.aspect (.whole x.amount)) x.path

end Visit

def Event.visit? : Event → Option Visit
  | .descended c => some ⟨.depth, c.depth, c.fragments⟩
  | .counted size c => some ⟨.items, size, c.fragments⟩
  | _ => none

def Journal.visits (j : Journal) : List Visit := j.filterMap Event.visit?

namespace Context

def unlimited (c : Context) : Context := { c with config := { c.config with limits := none } }

def bounded (c : Context) (l : Limits) : Context :=
  { c with config := { c.config with limits := some l } }

@[simp] theorem fragments_bounded (c : Context) (l : Limits) :
    (c.bounded l).fragments = c.fragments := rfl

theorem unlimited_bounded {c : Context} (l : Limits) (free : c.config.limits = none) :
    (c.bounded l).unlimited = c := by
  obtain ⟨head, ancestors, limits, logger⟩ := c
  cases free
  rfl

end Context

def Event.unlimited : Event → Event
  | .entered d c v => .entered d c.unlimited v
  | .descended c => .descended c.unlimited
  | .counted size c => .counted size c.unlimited
  | e => e

namespace Run

def unlimited (r : Run α) : Run α := ⟨r.journal.map Event.unlimited, r.outcome⟩

theorem unlimited_eq_seen (r : Run α) : r.unlimited = r.seen fun e => some e.unlimited := by
  rw [unlimited, seen]
  exact congrArg (Run.mk · r.outcome) (congrFun List.filterMap_eq_map'.symm r.journal)

theorem unlimited_bind (r : Run α) (f : α → Run β) :
    (r.bind f).unlimited = r.unlimited.bind fun a => (f a).unlimited := by
  simp only [unlimited_eq_seen, seen_bind]

theorem unlimited_rescue (r : Run α) (handler : Fault → Run α) :
    (r.rescue handler).unlimited = r.unlimited.rescue fun m => (handler m).unlimited := by
  simp only [unlimited_eq_seen, seen_rescue]

/-- What limits make of an event: a visit that is over its limit is refused. -/
def permit (l : Limits) (logger : Logger) (e : Event) : Run Unit :=
  match e.visit? with
  | some x => if x.exceeds l then Limits.reject logger (x.fault l) else Run.pure ()
  | none => Run.pure ()

def replay (l : Limits) (logger : Logger) : Journal → Run Unit
  | [] => Run.pure ()
  | e :: rest => (emit e).bind fun _ => (permit l logger e).bind fun _ => replay l logger rest

/-- The run as far as limits let it come. -/
def truncate (l : Limits) (logger : Logger) (r : Run α) : Run α :=
  (replay l logger r.journal).bind fun _ => ⟨[], r.outcome⟩

variable (l : Limits) (logger : Logger)

theorem replay_append (a b : Journal) :
    replay l logger (a ++ b) = (replay l logger a).bind fun _ => replay l logger b := by
  induction a with
  | nil => rfl
  | cons e rest ih => simp only [List.cons_append, replay, ih, bind_assoc]

theorem reject_located (base : String) (path : List Value) :
    Limits.reject logger (.located .limit base path) =
      ⟨[.logged ⟨.warning, logger,
          "Structural limit exceeded: " ++ Fault.message (.located .limit base path)⟩,
        .raised (.located .limit base path)], .error (.fault (.located .limit base path))⟩ := rfl

theorem isFirm_reject (f : Fault) (firm : f.isMismatch = false) :
    (Limits.reject logger f).IsFirm := by
  intro m ended
  cases f <;> cases ended <;> exact firm

theorem isFirm_permit (e : Event) : (permit l logger e).IsFirm := by
  unfold permit
  split
  · split
    · exact isFirm_reject logger _ rfl
    · exact isFirm_pure ()
  · exact isFirm_pure ()

/-- No alternative takes over from a visit that is refused. -/
theorem isFirm_replay (j : Journal) : (replay l logger j).IsFirm := by
  induction j with
  | nil => exact isFirm_pure ()
  | cons e rest ih =>
    exact (isFirm_emit e).bind fun _ => (isFirm_permit l logger e).bind fun _ => ih

theorem truncate_bind (r : Run α) (f : α → Run β) :
    (r.bind f).truncate l logger =
      (r.truncate l logger).bind fun a => (f a).truncate l logger := by
  obtain ⟨journal, outcome⟩ := r
  cases outcome with
  | error stop =>
    simp only [truncate, bind_error, bind_assoc]
  | ok a =>
    simp only [truncate, bind_ok, replay_append, bind_assoc, List.nil_append]

theorem truncate_rescue (r : Run α) (handler : Fault → Run α) :
    (r.rescue handler).truncate l logger =
      (r.truncate l logger).rescue fun m => (handler m).truncate l logger := by
  obtain ⟨journal, outcome⟩ := r
  have firm := isFirm_replay l logger journal
  match outcome with
  | .ok a =>
    simp only [truncate, rescue_bind firm]
    rfl
  | .error .exhausted =>
    simp only [truncate, rescue_bind firm]
    rfl
  | .error (.fault m) =>
    cases mismatch : m.isMismatch with
    | false =>
      simp only [truncate, rescue_bind firm]
      simp [rescue, mismatch]
    | true =>
      rw [rescue_of_mismatch _ mismatch, truncate_bind]
      simp only [truncate, rescue_bind firm, rescue_of_mismatch _ mismatch, bind_assoc]

theorem truncate_emit (e : Event) :
    (emit e).truncate l logger = (emit e).bind fun _ => permit l logger e := by
  simp only [truncate, emit, replay, bind_assoc]
  exact congrArg _ (funext fun _ => bind_pure (permit l logger e))

theorem replay_eq_of_within {j : Journal} (within : ∀ x ∈ j.visits, x.exceeds l = false) :
    replay l logger j = ⟨j, .ok ()⟩ := by
  induction j with
  | nil => rfl
  | cons e rest ih =>
    have later : ∀ x ∈ Journal.visits rest, x.exceeds l = false := by
      intro x member
      apply within x
      simp only [Journal.visits, List.mem_filterMap] at member ⊢
      obtain ⟨e', inside, eq⟩ := member
      exact ⟨e', List.mem_cons_of_mem e inside, eq⟩
    have permitted : permit l logger e = Run.pure () := by
      unfold permit
      split
      next x visit =>
        have fits := within x (List.mem_filterMap.mpr ⟨e, List.mem_cons_self, visit⟩)
        simp [fits]
      next => rfl
    simp only [replay, permitted, ih later, pure_bind]
    rfl

theorem truncate_eq_self {r : Run α} (within : ∀ x ∈ r.journal.visits, x.exceeds l = false) :
    r.truncate l logger = r := by
  obtain ⟨journal, outcome⟩ := r
  simp only [truncate, replay_eq_of_within l logger within, bind_ok, List.append_nil]

/-- The first visit that is over its limit ends the run. -/
theorem truncate_eq_cut {r : Run α} {before after : Journal} {e : Event} {x : Visit}
    (split : r.journal = before ++ e :: after) (visit : e.visit? = some x)
    (exceeds : x.exceeds l = true) (within : ∀ y ∈ before.visits, y.exceeds l = false) :
    r.truncate l logger =
      ⟨before ++ [e, .logged ⟨.warning, logger, "Structural limit exceeded: " ++
          (x.fault l).message⟩, .raised (x.fault l)], .error (.fault (x.fault l))⟩ := by
  have refused : permit l logger e = Limits.reject logger (x.fault l) := by
    simp [permit, visit, exceeds]
  simp only [truncate, split, replay_append, replay, replay_eq_of_within l logger within,
    refused, Visit.fault, reject_located]
  rfl

end Run

namespace Context

theorem unlimited_check (c : Context) (l : Limits)
    (visit : e.visit? = some ⟨aspect, n, c.fragments⟩) :
    ((c.bounded l).check aspect n).unlimited =
      Run.permit l (c.config.loggerFor .structures) e := by
  cases excess : l.isExceeded aspect (.whole n) <;>
    simp only [check, bounded, Run.permit, visit, Visit.exceeds, excess] <;> rfl

theorem unlimited_emit_check {c : Context} {config : Config} (l : Limits)
    (event : Context → Event) (free : c.config = { config with limits := none })
    (same : (event (c.bounded l)).unlimited = event (c.bounded l).unlimited)
    (visit : (event c).visit? = some ⟨aspect, n, c.fragments⟩) :
    ((Run.emit (event (c.bounded l))).bind fun _ => (c.bounded l).check aspect n).unlimited =
      ((Run.emit (event c)).bind fun _ => c.check aspect n).truncate l
        (config.loggerFor .structures) := by
  have limits : c.config.limits = none := by rw [free]
  have logger : c.config.loggerFor .structures = config.loggerFor .structures := by
    rw [free]
    rfl
  rw [check_of_free limits, Run.bind_pure, Run.truncate_emit, Run.unlimited_bind,
    unlimited_check c l visit, logger]
  rw [unlimited_bounded l limits] at same
  simp only [Run.unlimited, Run.emit, List.map_cons, List.map_nil, same]

end Context

def Congruence.truncation (l : Limits) (config : Config) : Congruence where
  contexts c c' := c'.config = { config with limits := none } ∧ c = c'.bounded l
  rejections m m' := m = m'
  runs r r' := r.unlimited = r'.truncate l (config.loggerFor .structures)
  push := by
    rintro _ c _ ⟨free, rfl⟩
    exact ⟨free, rfl⟩
  pure := rfl
  bind := by
    intro _ r r' _ f f' first rest
    rw [Run.unlimited_bind, Run.truncate_bind, first]
    exact congrArg _ (funext rest)
  rescue := by
    intro _ r r' h h' first rest
    rw [Run.unlimited_rescue, Run.truncate_rescue, first]
    exact congrArg _ (funext fun m => rest m m rfl)
  settle := by
    rintro _ _ _ rfl
    rfl
  rejected := by
    rintro _ c _ _ _ ⟨free, rfl⟩ rfl
    rfl
  arrive := by
    rintro _ c ⟨free, rfl⟩
    exact Context.unlimited_emit_check l .descended free rfl rfl
  count := by
    rintro _ c size ⟨free, rfl⟩
    exact Context.unlimited_emit_check l (.counted size) free rfl rfl

/-- Only a report on the context reads the limits in force. -/
def Decoder.ignoresLimits : Decoder → Bool
  | .inspect => false
  | _ => true

theorem Decoder.Raises.bounded {d : Decoder} (raises : d.Raises v fault) (c : Context) (l : Limits) :
    fault (c.bounded l) = fault c := by
  cases raises <;> rfl

theorem Callback.visits_call (f : Callback) (v : Value) : (f.call v).journal.visits = [] := by
  refine List.filterMap_eq_nil_iff.mpr ?_
  intro e member
  rcases mem_journal_call member with rfl | ⟨_, rfl⟩ | ⟨_, rfl⟩ <;> rfl

theorem Run.unlimited_call (l : Limits) (logger : Logger) (f : Callback) (v : Value) :
    (f.call v).unlimited = (f.call v).truncate l logger := by
  have plain : ∀ e ∈ (f.call v).journal, e.unlimited = e := by
    intro e member
    rcases Callback.mem_journal_call member with rfl | ⟨_, rfl⟩ | ⟨_, rfl⟩ <;> rfl
  have unchanged : (f.call v).journal.map Event.unlimited = (f.call v).journal :=
    (List.map_congr_left plain).trans (List.map_id _)
  rw [truncate_eq_self l logger (by simp [Callback.visits_call]), unlimited, unchanged]

theorem Congruence.covers_truncation (d : Decoder) (ignores : d.ignoresLimits = true)
    (related : (truncation l config).contexts c c') :
    (truncation l config).Covers d v c c' where
  raise := by
    obtain ⟨_, rfl⟩ := related
    intro _ fault raises
    rw [raises.bounded]
    rfl
  call := fun f _ w => Run.unlimited_call l _ f w
  inspect := by
    rintro rfl
    cases ignores

/-- From any place, the run under limits is the run without them as far as limits let
it come. -/
theorem Decoder.runAt_bounded {defs : Definitions} {d : Decoder}
    (ignores : d.Everywhere (·.ignoresLimits)) (within : defs.Everywhere (·.ignoresLimits))
    (fuel : Nat) (l : Limits) (v : Value) (c : Context) (free : c.config.limits = none) :
    (d.runAt defs fuel v (c.bounded l)).unlimited =
      (d.runAt defs fuel v c).truncate l (c.config.loggerFor .structures) := by
  have place : (Congruence.truncation l c.config).contexts (c.bounded l) c := by
    refine ⟨?_, rfl⟩
    rw [← free]
  apply Congruence.runAt (Congruence.truncation l c.config) rfl (fun _ _ _ => rfl) _ within fuel
    ignores v _ _ place
  intro fuel d here v c₁ c₂ related body
  apply Congruence.entering
  · obtain ⟨bare, rfl⟩ := related
    have limits : c₂.config.limits = none := by rw [bare]
    change Run.mk [.entered d (c₂.bounded l).unlimited v] _ = _
    rw [Context.unlimited_bounded l limits]
    rfl
  · exact body (Congruence.covers_truncation d here related)

namespace Run

@[simp] theorem calls_unlimited (r : Run α) : r.unlimited.journal.calls = r.journal.calls := by
  simp only [unlimited, Journal.calls, List.filterMap_map]
  exact congrArg (fun f => r.journal.filterMap f) (funext fun e => by cases e <;> rfl)

@[simp] theorem records_unlimited (r : Run α) :
    r.unlimited.journal.records = r.journal.records := by
  simp only [unlimited, Journal.records, List.filterMap_map]
  exact congrArg (fun f => r.journal.filterMap f) (funext fun e => by cases e <;> rfl)

theorem unlimited_announced (logger : Logger) (r : Run α) :
    (r.announced logger).unlimited = r.unlimited.announced logger := by
  rw [unlimited_eq_seen, unlimited_eq_seen]
  apply seen_announced
  exact fun _ => rfl

theorem visits_announced (logger : Logger) (r : Run α) :
    (r.announced logger).journal.visits = r.journal.visits := by
  unfold announced
  repeat' split
  all_goals simp [Journal.visits, Event.visit?]

end Run

theorem Journal.exists_first_visit {j : Journal} (test : Visit → Bool)
    (passed : ∃ x ∈ j.visits, test x = true) :
    ∃ before e after x, j = before ++ e :: after ∧ e.visit? = some x ∧ test x = true ∧
      ∀ y ∈ Journal.visits before, test y = false := by
  obtain ⟨x, member, passes⟩ := passed
  obtain ⟨e, inside, visit⟩ := List.mem_filterMap.mp member
  have found : (j.find? fun e => e.visit?.any test).isSome = true :=
    List.find?_isSome.mpr ⟨e, inside, by simp [visit, passes]⟩
  obtain ⟨first, eq⟩ := Option.isSome_iff_exists.mp found
  obtain ⟨here, before, after, split, earlier⟩ := List.find?_eq_some_iff_append.mp eq
  obtain ⟨y, visit, passes⟩ := (Option.any_eq_true _ _).mp here
  refine ⟨before, first, after, y, split, visit, passes, ?_⟩
  intro z member
  obtain ⟨e, inside, visit⟩ := List.mem_filterMap.mp member
  simpa [visit] using earlier e inside

namespace Decoder

theorem run_bounded {defs : Definitions} {d : Decoder}
    (ignores : d.Everywhere (·.ignoresLimits)) (within : defs.Everywhere (·.ignoresLimits))
    (fuel : Nat) (l : Limits) (logger : Option Logger) (v : Value) :
    (d.run defs fuel ⟨some l, logger⟩ v).unlimited =
      ((d.runAt defs fuel v (.root ⟨none, logger⟩)).truncate l
        ((Config.mk none logger).loggerFor .structures)).announced
          ((Config.mk none logger).loggerFor .engine) := by
  have cut := runAt_bounded ignores within fuel l v (.root ⟨none, logger⟩) rfl
  exact (Run.unlimited_announced _ _).trans (congrArg (Run.announced _) cut)

/-- Limits that no visit is over do not show. Else the run is refused at the first visit that is over
its limit, after just what came before it without limits. -/
theorem limits_only_truncate (d : Decoder) (defs : Definitions)
    (ignores : d.Everywhere (·.ignoresLimits)) (within : defs.Everywhere (·.ignoresLimits))
    (fuel : Nat) (l : Limits) (logger : Option Logger) (v : Value) :
    let free := d.run defs fuel ⟨none, logger⟩ v
    let bound := d.run defs fuel ⟨some l, logger⟩ v
    ((∀ x ∈ free.journal.visits, x.exceeds l = false) →
      bound.outcome = free.outcome ∧ bound.journal.calls = free.journal.calls ∧
        bound.journal.records = free.journal.records) ∧
    ((∃ x ∈ free.journal.visits, x.exceeds l = true) →
      ∃ before e after x, free.journal = before ++ e :: after ∧ e.visit? = some x ∧
        x.exceeds l = true ∧ (∀ y ∈ Journal.visits before, y.exceeds l = false) ∧
        bound.outcome = .error (.fault (x.fault l)) ∧
        bound.journal.calls = Journal.calls before ∧
        bound.journal.records = Journal.records before ++
          [⟨.warning, (Config.mk none logger).loggerFor .structures,
              "Structural limit exceeded: " ++ (x.fault l).message⟩,
            ⟨.debug, (Config.mk none logger).loggerFor .engine,
              "Parse failed: " ++ (x.fault l).message⟩]) := by
  intro free bound
  have cut := run_bounded ignores within fuel l logger v
  have visits := Run.visits_announced ((Config.mk none logger).loggerFor .engine)
    (d.runAt defs fuel v (.root ⟨none, logger⟩))
  have outcome : bound.outcome = bound.unlimited.outcome := rfl
  rw [outcome, ← Run.calls_unlimited bound, ← Run.records_unlimited bound]
  constructor
  · intro fits
    rw [show free.journal.visits = _ from visits] at fits
    rw [Run.truncate_eq_self _ _ fits] at cut
    rw [cut]
    exact ⟨rfl, rfl, rfl⟩
  · intro excessive
    rw [show free.journal.visits = _ from visits] at excessive
    obtain ⟨before, e, after, x, split, visit, exceeds, earlier⟩ :=
      Journal.exists_first_visit _ excessive
    obtain ⟨closing, whole⟩ := Run.journal_announced ((Config.mk none logger).loggerFor .engine)
      (d.runAt defs fuel v (.root ⟨none, logger⟩))
    rw [Run.truncate_eq_cut _ _ split visit exceeds earlier,
      Run.announced_of_located _ _ rfl] at cut
    refine ⟨before, e, after ++ closing, x, ?_, visit, exceeds, earlier, ?_⟩
    · rw [show free.journal = _ from whole, split, List.append_assoc, List.cons_append]
    · rw [cut]
      cases e <;> cases visit <;> simp [Journal.calls, Journal.records]

/-- A visit counts also in an alternative that is rejected without limits. -/
theorem limits_only_truncate_alternative :
    let d : Decoder := .alt [.array (.array (.primitive .string)), .named "any" (.ref "any")]
    let defs : Definitions := [("any", .primitive .identity)]
    let l : Limits := ⟨.whole 1, .whole 10⟩
    let v : Value := .list [.list [.int 1]]
    d.Everywhere (·.ignoresLimits) ∧ defs.Everywhere (·.ignoresLimits) ∧
      (d.run defs 2 ⟨none, none⟩ v).outcome = .ok v ∧
      ∃ x : Visit, x.exceeds l = true ∧
        (d.run defs 2 ⟨some l, none⟩ v).outcome = .error (.fault (x.fault l)) := by
  intro d defs l v
  have ignores : d.Everywhere (·.ignoresLimits) := by decide
  have within : defs.Everywhere (·.ignoresLimits) := by decide
  refine ⟨ignores, within, rfl, ?_⟩
  obtain ⟨_, _, _, x, _, _, exceeds, _, outcome, _⟩ :=
    (limits_only_truncate d defs ignores within 2 l none v).2 (by decide)
  exact ⟨x, exceeds, outcome⟩

end Decoder

end Intake
