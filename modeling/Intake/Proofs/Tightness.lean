import Mathlib.Data.Rat.Floor
import Intake.Proofs.CallTree
import Intake.Proofs.Reporting

/-! Limits are tight. A descent is checked before the call and goes one further in, and a
sequence is counted before its elements, so what a run is refused for is exact. -/
namespace Intake

/-- What lies between whole numbers next to each other is a number itself. -/
theorem Quantity.exists_floor {q : Quantity} {n : Int} (permitted : q.lt (.exactly n) = false)
    (exceeded : q.lt (.exactly (n + 1 : Int)) = true) :
    ∃ limit : Rat, q = .exactly limit ∧ ⌊limit⌋ = n := by
  cases q with
  | undefined => cases exceeded
  | negativeInfinity => cases permitted
  | infinity => cases exceeded
  | exactly limit =>
    have low : (n : Rat) ≤ limit := not_lt.mp (of_decide_eq_false permitted)
    have high : limit < (n + 1 : Int) := of_decide_eq_true exceeded
    rw [Int.cast_add, Int.cast_one] at high
    exact ⟨limit, rfl, Int.floor_eq_iff.mpr ⟨low, high⟩⟩

namespace Limits

/-- A structured group wins over the flat arguments. -/
theorem ofArguments_of_ofRequest {request : LimitsRequest} {l : Limits}
    (accepted : ofRequest request = .ok l) :
    ofArguments (request.structured.getD request.flat) = .ok l := by
  obtain ⟨_, _, named⟩ := exists_of_bind_eq_ok accepted
  obtain ⟨_, _, bound⟩ := exists_of_bind_eq_ok named
  simp only at bound
  split at bound
  · cases bound
  · split at bound
    next structured => rwa [structured]
    next => cases bound
    next structured _ => rwa [structured]

/-- A limit that is accepted leaves room for zero. -/
theorem lt_zero_of_checked {aspect : Aspect} {value : Value} {limit : Number}
    (accepted : checked aspect value = .ok limit) : limit.quantity.lt (.exactly 0) = false := by
  unfold checked at accepted
  split at accepted
  · cases accepted
  · split at accepted
    next => cases accepted
    next positive =>
      cases accepted
      rw [Quantity.le, Bool.or_eq_true, not_or, Bool.not_eq_true] at positive
      exact positive.1

theorem depth_zero_of_ofRequest {request : LimitsRequest} {l : Limits}
    (accepted : ofRequest request = .ok l) : l.isExceeded .depth (.whole 0) = false := by
  obtain ⟨depth, checked, accepted⟩ := exists_of_bind_eq_ok (ofArguments_of_ofRequest accepted)
  obtain ⟨items, _, same⟩ := exists_of_bind_eq_ok accepted
  cases same
  exact lt_zero_of_checked checked

end Limits

/-- Where limits let a run come to: the depth is within them and is that of the path. -/
structure Context.Permitted (l : Limits) (c : Context) : Prop where
  limited : c.config.limits = some l
  within : l.isExceeded .depth (.whole c.depth) = false
  counted : c.depth = c.fragments.length

namespace Context

variable {l : Limits} {c : Context}

theorem permitted_root {request : LimitsRequest} {config : Config}
    (accepted : Limits.ofRequest request = .ok l) (limited : config.limits = some l) :
    (root config).Permitted l :=
  ⟨limited, Limits.depth_zero_of_ofRequest accepted, rfl⟩

theorem Permitted.counted_push (permitted : c.Permitted l) (fragment : Value) :
    (c.push fragment).depth = (c.push fragment).fragments.length := by
  have start : 0 ≤ c.depth := by rw [permitted.counted]; exact Int.natCast_nonneg _
  rw [fragments_push c fragment start, depth_push, permitted.counted, List.length_cons,
    Int.natCast_succ]

theorem Permitted.push (permitted : c.Permitted l) {fragment : Value}
    (arrived : (c.push fragment).arrive.outcome = .ok ()) : (c.push fragment).Permitted l where
  limited := permitted.limited
  within := within_of_arrive permitted.limited arrived
  counted := permitted.counted_push fragment

end Context

def Fault.IsLimit (m : Fault) : Prop := ∃ base path, m = .located .limit base path

theorem Fault.not_isLimit_mismatch (message : Value) (c : Context) :
    ¬(mismatch message c).IsLimit := by
  rintro ⟨base, path, same⟩
  cases message <;> cases same

/-- What may happen in a run under limits that leaves the journal. -/
inductive Event.Kept (l : Limits) (j : Journal) : Event → Prop where
  | entered {c : Context} : c.Permitted l → Kept l j (.entered d c v)
  | descended {c : Context} : c.Permitted l → Kept l j (.descended (c.push fragment))
  | counted : .entered (.array item) c v ∈ j → v.items? = some items → c.Permitted l →
      Kept l j (.counted items.length c)
  | invoked : Kept l j (.invoked a)
  | called : Kept l j (.called call)
  | logged : Kept l j (.logged record)
  | harmless {m : Fault} : ¬m.IsLimit → Kept l j (.raised m)
  | excess {x : Visit} : x ∈ j.visits → x.exceeds l = true → Kept l j (.raised (x.fault l))
  | thrown : j.Throws m → Kept l j (.raised m)
  | forbidden : .entered (.forbid message) c v ∈ j →
      Kept l j (.raised (.locate .limit message c.fragments))

theorem Decoder.Raises.kept {d : Decoder} {v : Value} {fault : Context → Fault}
    (raises : d.Raises v fault) {l : Limits} {j : Journal} {c : Context}
    (entered : .entered d c v ∈ j) : Event.Kept l j (.raised (fault c)) := by
  have refused (message : String) : ¬(Fault.refused v message c).IsLimit := by
    unfold Fault.refused
    split
    · exact Fault.not_isLimit_mismatch (.text message) c
    · rintro ⟨base, path, same⟩
      cases same
  cases raises with
  | primitive | object | array => exact .harmless (refused _)
  | preCondition | postCondition | fail | failWith | alt => exact .harmless (Fault.not_isLimit_mismatch _ c)
  | forbid => exact .forbidden entered
  | broken =>
    refine .harmless ?_
    rintro ⟨base, path, same⟩
    cases same

namespace Run

def Keeps (l : Limits) (j : Journal) (r : Run α) : Prop :=
  r.journal <:+: j → ∀ e ∈ r.journal, e.Kept l j

variable {l : Limits} {j : Journal}

theorem keeps_of_empty {r : Run α} (empty : r.journal = []) : r.Keeps l j := by
  intro _ e member
  rw [empty] at member
  cases member

theorem keeps_emit {e : Event} (kept : e.Kept l j) : (emit e).Keeps l j := by
  intro _ x member
  cases List.mem_singleton.mp member
  exact kept

theorem keeps_raise {m : Fault} (kept : Event.Kept l j (.raised m)) :
    (raise m : Run α).Keeps l j := by
  intro _ x member
  cases List.mem_singleton.mp member
  exact kept

theorem Keeps.bind {r : Run α} {f : α → Run β} (first : r.Keeps l j)
    (rest : ∀ a, r.outcome = .ok a → (f a).Keeps l j) : (r.bind f).Keeps l j := by
  obtain ⟨journal, outcome⟩ := r
  cases outcome with
  | error stop => exact first
  | ok a =>
    intro part e member
    rw [bind_ok] at part member
    rcases List.mem_append.mp member with earlier | later
    · exact first ((List.prefix_append _ _).isInfix.trans part) e earlier
    · exact rest a rfl ((List.suffix_append _ _).isInfix.trans part) e later

theorem Keeps.rescue {r : Run α} {handler : Fault → Run α} (first : r.Keeps l j)
    (rest : ∀ m, (handler m).Keeps l j) : (r.rescue handler).Keeps l j := by
  refine rescue_induction first fun m _ _ => ?_
  have paused : (⟨r.journal, .ok ()⟩ : Run Unit).Keeps l j := first
  exact paused.bind fun _ _ => rest m

/-- A visit that is refused accounts for the fault. -/
theorem keeps_visit {e : Event} {c : Context} {aspect : Aspect} {n : Int}
    (visit : e.visit? = some ⟨aspect, n, c.fragments⟩) (limited : c.config.limits = some l)
    (kept : e.Kept l j) : ((emit e).bind fun _ => c.check aspect n).Keeps l j := by
  intro part x member
  have inside : e ∈ j := part.subset List.mem_cons_self
  rcases List.mem_cons.mp member with rfl | later
  · exact kept
  · simp only [Context.check, limited] at later
    split at later
    next exceeded =>
      have over_limit : Event.Kept l j (.raised (Visit.fault l ⟨aspect, n, c.fragments⟩)) :=
        .excess (List.mem_filterMap.mpr ⟨e, inside, visit⟩) exceeded
      rw [reject_located] at later
      rcases List.mem_cons.mp later with rfl | last
      · exact .logged
      · rw [List.mem_singleton.mp last]
        exact over_limit
    next => cases later

theorem keeps_call {d : Decoder} {c : Context} {v : Value} {f : Callback}
    (entered : .entered d c v ∈ j) (callback : f ∈ d.callbacks) (a : Value) :
    (f.call a).Keeps l j := by
  intro part e member
  rcases Callback.mem_journal_call member with rfl | ⟨_, rfl⟩ | ⟨m, rfl⟩
  · exact .invoked
  · exact .called
  · exact .thrown ⟨d, c, v, f, a, entered, callback, part, Callback.apply_of_raised member⟩

theorem keeps_alternatives {a : Decoder → Action} {v : Value} {c : Context}
    {options : List Decoder} (each : ∀ d ∈ options, (a d v c).Keeps l j) (last : Option Fault) :
    (Action.alternatives last (options.map fun d => (d.name, a d)) v c).Keeps l j := by
  induction options generalizing last with
  | nil =>
    cases last with
    | none => exact keeps_raise (.harmless (Fault.not_isLimit_mismatch _ c))
    | some m => exact keeps_of_empty rfl
  | cons d rest ih =>
    refine (each d List.mem_cons_self).rescue fun m => ?_
    refine Keeps.bind (keeps_emit .logged) fun _ _ => ?_
    exact ih (fun e member => each e (List.mem_cons_of_mem d member)) (some m)

end Run

def Threading.keeping (l : Limits) (j : Journal) : Threading where
  contexts c _ := c.Permitted l
  runs r _ := r.Keeps l j
  pure := Run.keeps_of_empty rfl
  bind first rest := first.bind fun a _ => rest a
  descend := by
    intro c c' _ f _ fragment permitted each
    rw [Context.descend_bind]
    have arrival : (c.push (.text fragment)).arrive.Keeps l j :=
      Run.keeps_visit rfl permitted.limited (.descended permitted)
    exact arrival.bind fun _ arrived => each _ c' (permitted.push arrived)

namespace Decoder

def isPush : Decoder → Bool
  | .push _ _ => true
  | _ => false

variable {defs : Definitions} {l : Limits}

/-- Without a push a run that starts within limits keeps to them. -/
theorem runAt_keeps {d : Decoder} (pushless : d.Everywhere fun e => !e.isPush)
    (within : defs.Everywhere fun e => !e.isPush) (fuel : Nat) (v : Value) {c : Context}
    (permitted : c.Permitted l) (j : Journal) : (d.runAt defs fuel v c).Keeps l j := by
  let K := Threading.keeping l j
  refine runAt_induction (P := fun a => K.actions a a) ?_ ?_ ?_ within fuel pushless v c c permitted
  · exact fun _ _ _ _ => Run.keeps_of_empty rfl
  · intro name _ _ _ _ _ _
    refine Run.keeps_raise (.harmless ?_)
    rintro ⟨base, path, same⟩
    cases same
  · intro fuel references d here parts v c c' permitted part
    -- what the decoder raises or counts itself refers to its own entry
    have entered : .entered d c v ∈ j := by
      refine part.subset ?_
      rw [runAt, action_eq_run]
      exact List.mem_cons_self
    have covers : K.Covers d v c c' :=
      { raise := fun fault raises => Run.keeps_raise (raises.kept entered)
        call := fun f callback a => Run.keeps_call entered callback a
        inspect := fun _ => Run.keeps_of_empty rfl
        count := by
          rintro item items rfl shape
          exact Run.keeps_visit rfl permitted.limited (.counted entered shape permitted)
        push := by
          rintro fragment e rfl
          cases here }
    have body : (d.body (defs.resolve fuel) v c).Keeps l j := by
      refine K.body (fun name same => references name (same ▸ here)) parts ?_ permitted covers
      rintro options rfl
      exact Run.keeps_alternatives (fun e member => parts e member v c c' permitted) none
    have start : (Run.emit (.entered d c v)).Keeps l j := Run.keeps_emit (.entered permitted)
    rw [runAt, action_eq_entering] at part ⊢
    exact start.bind (fun _ _ => body) part

/-- Nothing is done to the elements of a sequence that is too long. -/
theorem runAt_array_of_exceeded {item : Decoder} {fuel : Nat} {v : Value} {items : List Value}
    {c : Context} (shape : v.items? = some items) (limited : c.config.limits = some l)
    (exceeded : l.isExceeded .items (.whole items.length) = true) :
    let m := Visit.fault l ⟨.items, items.length, c.fragments⟩
    (array item).runAt defs fuel v c =
      ⟨[.entered (.array item) c v, .counted items.length c, .logged (c.config.warning m),
        .raised m], .error (.fault m)⟩ := by
  intro m
  have refused : c.count items.length =
      ⟨[.counted items.length c, .logged (c.config.warning m), .raised m], .error (.fault m)⟩ := by
    change (Run.emit _).bind (fun _ => c.check .items items.length) = _
    simp only [Context.check, limited, if_pos exceeded, Run.reject_located]
    rfl
  rw [runAt, action_eq_run, body, Action.array_of_some shape, refused]
  rfl

theorem config_of_entered {d e : Decoder} {fuel : Nat} {v w : Value} {c c' : Context}
    (entered : .entered e c' w ∈ (d.runAt defs fuel v c).journal) : c'.config = c.config := by
  obtain ⟨inner, _, rfl⟩ := (runAt_leaves d defs fuel c [] v).reaches entered
  exact Context.config_pushAll c _

theorem entered_of_run {d e : Decoder} {fuel : Nat} {config : Config} {v w : Value} {c : Context}
    (entered : .entered e c w ∈ (d.run defs fuel config v).journal) :
    .entered e c w ∈ (d.runAt defs fuel v (.root config)).journal := by
  rcases Run.mem_journal_announced entered with inside | ⟨_, foreign⟩
  · exact inside
  · cases foreign

/-- The entry of an array on a sequence that is too long is followed by its count and the end of
the run. -/
theorem after_of_exceeded {d item : Decoder} {fuel : Nat} {config : Config} {v w : Value}
    {items : List Value} {c : Context} {before after : Journal}
    (limited : config.limits = some l)
    (split : (d.run defs fuel config v).journal = before ++ .entered (.array item) c w :: after)
    (shape : w.items? = some items) (exceeded : l.isExceeded .items (.whole items.length) = true) :
    let m := Visit.fault l ⟨.items, items.length, c.fragments⟩
    after = [.counted items.length c, .logged (config.warning m), .raised m,
      .logged (config.announcement m)] := by
  intro m
  have entered : .entered (.array item) c w ∈ (d.run defs fuel config v).journal := by
    rw [split]
    exact List.mem_append_right before List.mem_cons_self
  have configured : c.config = config := config_of_entered (entered_of_run entered)
  have places := (d.runAt_placesCalls defs fuel v (.root config)).announced
    (config.loggerFor .engine)
  obtain ⟨fuel', rest, whole⟩ := places before (.array item) c w after split
  rw [runAt_array_of_exceeded shape (configured ▸ limited) exceeded, configured] at whole
  obtain ⟨_, rfl⟩ := List.cons_eq_cons.mp whole
  have raised : (d.run defs fuel config v).journal = (before ++ [.entered (.array item) c w,
      .counted items.length c, .logged (config.warning m)]) ++ .raised m :: rest := by
    rw [split]
    simp [m]
  have conclusive := d.runAt_conclusive defs fuel v (.root config)
  obtain ⟨_, closing⟩ := conclusive.last_announced (config.loggerFor .engine) raised rfl
  rw [closing]
  rfl

end Decoder

/-- The visit is refused for what it is: the depth of the path is the next whole number over
the limit, or the number of items is that of a sequence within the limit on depth. -/
inductive Visit.Tight (l : Limits) (j : Journal) : Visit → Prop where
  | depth {limit : Rat} {path : List Value} : l.depth.quantity = .exactly limit →
      (path.length : Int) = ⌊limit⌋ + 1 → Tight l j ⟨.depth, ⌊limit⌋ + 1, path⟩
  | items : .entered (.array item) c v ∈ j → v.items? = some items →
      l.isExceeded .items (.whole items.length) = true →
      l.isExceeded .depth (.whole c.fragments.length) = false →
      Tight l j ⟨.items, items.length, c.fragments⟩

/-- A visit that may happen and is refused is tight. -/
theorem Event.Kept.tight {l : Limits} {j : Journal} {e : Event} {x : Visit} (kept : e.Kept l j)
    (visit : e.visit? = some x) (exceeds : x.exceeds l = true) : x.Tight l j := by
  cases kept with
  | @descended fragment c permitted =>
    cases visit
    obtain ⟨limit, finite, floor⟩ := Quantity.exists_floor permitted.within exceeds
    have counted := permitted.counted_push fragment
    rw [Context.depth_push, ← floor] at counted
    simp only [Context.depth_push, ← floor]
    exact .depth finite counted.symm
  | counted entered shape permitted =>
    cases visit
    have shallow := permitted.within
    rw [permitted.counted] at shallow
    exact .items entered shape exceeds shallow
  | entered | invoked | called | logged | harmless | excess | thrown | forbidden => cases visit

theorem Event.Kept.of_raised {l : Limits} {j : Journal} {m : Fault}
    (kept : Event.Kept l j (.raised m)) (limit : m.IsLimit) :
    (∃ x ∈ j.visits, x.exceeds l = true ∧ m = x.fault l) ∨ j.Throws m ∨
      ∃ message c v, .entered (.forbid message) c v ∈ j ∧
        m = .locate .limit message c.fragments := by
  cases kept with
  | harmless other => exact absurd limit other
  | excess member exceeds => exact .inl ⟨_, member, exceeds, rfl⟩
  | thrown throws => exact .inr (.inl throws)
  | forbidden entered => exact .inr (.inr ⟨_, _, _, entered, rfl⟩)

theorem Visit.Tight.mono {l : Limits} {j j' : Journal} {x : Visit} (tight : x.Tight l j)
    (part : j ⊆ j') : x.Tight l j' := by
  cases tight with
  | depth finite counted => exact .depth finite counted
  | items entered shape exceeds shallow => exact .items (part entered) shape exceeds shallow

theorem Run.Reports.outcome_of_exceeds {defs : Definitions} {config : Config} {r : Run α}
    {l : Limits} {x : Visit} (reports : r.Reports defs config) (limited : config.limits = some l)
    (member : x ∈ r.journal.visits) (exceeds : x.exceeds l = true) :
    r.outcome = .error (.fault (x.fault l)) := by
  obtain ⟨before, e, y, l', calm, limited', visit, _, ended, whole⟩ :=
    reports.refused ⟨l, limited, x, member, exceeds⟩
  cases limited.symm.trans limited'
  have visits : r.journal.visits = Journal.visits before ++ [y] := by
    simp only [whole, Journal.visits, List.filterMap_append, List.filterMap_cons, visit]
    rfl
  rw [visits] at member
  rcases List.mem_append.mp member with earlier | last
  · exact absurd ⟨l, limited, x, earlier, exceeds⟩ calm.within
  · rw [List.mem_singleton.mp last]
    exact ended

namespace Decoder

/-- Without pushes limits are tight. Every call stands within the limit on depth; nothing is
done to the elements of a sequence that is too long; the visit that is refused is what the run
ends in, with the next depth over the limit or the length of the sequence there; and no other
fault of that grade comes up but from a callback or a decoder that is to raise one. -/
theorem limits_are_tight {d : Decoder} {defs : Definitions} {request : LimitsRequest} {l : Limits}
    {config : Config} (accepted : Limits.ofRequest request = .ok l)
    (limited : config.limits = some l) (pushless : d.Everywhere fun e => !e.isPush)
    (within : defs.Everywhere fun e => !e.isPush) (fuel : Nat) (v : Value) :
    let r := d.run defs fuel config v
    (∀ e c w, .entered e c w ∈ r.journal → l.isExceeded .depth (.whole c.depth) = false) ∧
      (∀ before item c w items after, r.journal = before ++ .entered (.array item) c w :: after →
        w.items? = some items → l.isExceeded .items (.whole items.length) = true →
          let m := Visit.fault l ⟨.items, items.length, c.fragments⟩
          after = [.counted items.length c, .logged (config.warning m), .raised m,
            .logged (config.announcement m)]) ∧
      (∀ x ∈ r.journal.visits, x.exceeds l = true →
        r.outcome = .error (.fault (x.fault l)) ∧ x.Tight l r.journal) ∧
      ∀ m, r.outcome = .error (.fault m) → m.IsLimit →
        (∃ x ∈ r.journal.visits, x.exceeds l = true ∧ m = x.fault l) ∨ r.journal.Throws m ∨
          ∃ message c w, .entered (.forbid message) c w ∈ r.journal ∧
            m = .locate .limit message c.fragments := by
  intro r
  -- the announcement apart, all is said of the run from the root
  have part : (d.runAt defs fuel v (.root config)).journal <+: r.journal := by
    obtain ⟨closing, whole⟩ := Run.journal_announced (config.loggerFor .engine)
      (d.runAt defs fuel v (.root config))
    exact ⟨closing, whole.symm⟩
  have visits : r.journal.visits = (d.runAt defs fuel v (.root config)).journal.visits :=
    Run.visits_announced _ _
  have outcome : r.outcome = (d.runAt defs fuel v (.root config)).outcome :=
    Run.outcome_announced _ _
  have keeps := runAt_keeps pushless within fuel v (Context.permitted_root accepted limited)
    (d.runAt defs fuel v (.root config)).journal List.infix_rfl
  refine ⟨?_, ?_, ?_, ?_⟩
  · intro e c w entered
    cases keeps _ (entered_of_run entered) with
    | entered permitted => exact permitted.within
  · intro before item c w items after split shape exceeded
    exact after_of_exceeded limited split shape exceeded
  · intro x member exceeds
    refine ⟨(d.run_reports defs fuel config v).outcome_of_exceeds limited member exceeds, ?_⟩
    rw [visits] at member
    obtain ⟨e, inside, visit⟩ := List.mem_filterMap.mp member
    exact ((keeps e inside).tight visit exceeds).mono part.subset
  · intro m ended limit
    have firm : m.isMismatch = false := by
      obtain ⟨base, path, rfl⟩ := limit
      rfl
    obtain ⟨before, last⟩ :=
      (d.runAt_conclusive defs fuel v (.root config)).raised (outcome.symm.trans ended) firm
    have raised : .raised m ∈ (d.runAt defs fuel v (.root config)).journal := by
      rw [last]
      exact List.mem_append_right before (List.mem_singleton_self _)
    rw [visits]
    rcases (keeps _ raised).of_raised limit with excess | throws | ⟨message, c, w, entered, same⟩
    · exact .inl excess
    · exact .inr (.inl (throws.of_infix part.isInfix))
    · exact .inr (.inr ⟨message, c, w, part.subset entered, same⟩)

/-- With a limit between one and two the second depth is the first that is refused. -/
theorem limits_are_tight_between :
    let limit := Binary64.ofQuotient false 3 2
    let request : LimitsRequest := ⟨[("max_nesting_depth", .float limit)], none⟩
    let l : Limits := ⟨.real limit, .whole 100000⟩
    let d : Decoder := .array (.ref "nest")
    let defs : Definitions := [("nest", d)]
    let x : Visit := ⟨.depth, 2, [.text "array at index 0", .text "array at index 0"]⟩
    let r := d.run defs 4 ⟨some l, none⟩ (.list [.list [.list []]])
    Limits.ofRequest request = .ok l ∧ d.Everywhere (!·.isPush) ∧ defs.Everywhere (!·.isPush) ∧
      x.Tight l r.journal ∧ r.outcome = .error (.fault (x.fault l)) := by
  intro limit request l d defs x r
  have accepted : Limits.ofRequest request = .ok l := rfl
  have pushless : d.Everywhere (!·.isPush) := by decide
  have within : defs.Everywhere (!·.isPush) := by decide
  have limited : (⟨some l, none⟩ : Config).limits = some l := rfl
  obtain ⟨_, _, refused, _⟩ := limits_are_tight accepted limited pushless within 4
    (.list [.list [.list []]])
  have visited : r.journal.visits[3]? = some x := rfl
  obtain ⟨ended, tight⟩ := refused x (List.mem_of_getElem? visited) rfl
  exact ⟨accepted, pushless, within, tight, ended⟩

end Decoder

end Intake
