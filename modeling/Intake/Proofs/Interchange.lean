import Intake.Proofs.Residue
import Intake.Proofs.Tightness

/-! Equal limits are interchangeable. Comparison with a limit is by worth, so limits that are
alike refuse the same visit of a run first; only the complaint tells which were in force. -/
namespace Intake

theorem Quantity.same_iff {a b : Quantity} : a.same b = true ↔ a = b ∧ a ≠ .undefined := by
  cases a <;> simp [same]

theorem Quantity.same_comm (a b : Quantity) : a.same b = b.same a := by
  rw [Bool.eq_iff_iff, same_iff, same_iff]
  constructor <;> rintro ⟨rfl, defined⟩ <;> exact ⟨rfl, defined⟩

theorem Number.quantity_eq_undefined_iff {n : Number} :
    n.quantity = .undefined ↔ n = .real .nan := by
  match n with
  | .flag _ => simp [quantity]
  | .whole _ => simp [quantity]
  | .real .nan => simp [quantity, Binary64.quantity, Binary64.toRat?]
  | .real (.infinite negative) => cases negative <;> simp [quantity, Binary64.quantity]
  | .real (.finite ..) => simp [quantity, Binary64.quantity, Binary64.toRat?]

theorem Number.quantity_same_iff {m n : Number} : m.quantity.same n.quantity = true ↔
    m.quantity = n.quantity ∧ m ≠ .real .nan := by
  rw [Quantity.same_iff, ne_eq, ne_eq, quantity_eq_undefined_iff]

theorem Number.toNumber?_toValue (n : Number) : n.toValue.toNumber? = some n := by
  cases n <;> rfl

theorem Number.exists_residue {n : Number} (defined : n ≠ .real .nan) :
    ∃ r, n.residue = some r := by
  match n with
  | .flag _ => exact ⟨_, rfl⟩
  | .whole _ => exact ⟨_, rfl⟩
  | .real .nan => exact absurd rfl defined
  | .real (.infinite _) => exact ⟨_, rfl⟩
  | .real (.finite ..) => exact ⟨_, rfl⟩

theorem Number.residue_congr {m n : Number} (worth : m.quantity = n.quantity) :
    m.residue = n.residue := by
  rw [← residue_quantity, worth, residue_quantity]

/-- What is asked for: by the structured group, if there is one, and else by the flat arguments. -/
def LimitsRequest.asked (request : LimitsRequest) (aspect : Aspect) : Value :=
  ((request.structured.getD request.flat).lookup aspect.argument).getD aspect.default.toValue

namespace Limits

theorem checked_of_ofRequest {request : LimitsRequest} {l : Limits}
    (accepted : ofRequest request = .ok l) (aspect : Aspect) :
    checked aspect (request.asked aspect) = .ok (l.get aspect) := by
  obtain ⟨depth, deep, accepted⟩ := exists_of_bind_eq_ok (ofArguments_of_ofRequest accepted)
  obtain ⟨items, wide, accepted⟩ := exists_of_bind_eq_ok accepted
  cases accepted
  cases aspect with
  | depth => exact deep
  | items => exact wide

/-- Limits of one worth. Undefined limits are alike, though the same as nothing. -/
def Alike (a b : Limits) : Prop := ∀ aspect, (a.get aspect).quantity = (b.get aspect).quantity

theorem same_iff {a b : Limits} :
    a.same b = true ↔ a.Alike b ∧ ∀ aspect, a.get aspect ≠ .real .nan := by
  simp only [same, Bool.and_eq_true, Number.quantity_same_iff]
  constructor
  · rintro ⟨⟨depth, defined⟩, items, defined'⟩
    constructor
    · rintro (_ | _)
      · exact depth
      · exact items
    · rintro (_ | _)
      · exact defined
      · exact defined'
  · rintro ⟨alike, defined⟩
    exact ⟨⟨alike .depth, defined .depth⟩, alike .items, defined .items⟩

variable {a b c : Limits}

theorem same_comm (a b : Limits) : a.same b = b.same a := by
  rw [same, same, Quantity.same_comm a.depth.quantity, Quantity.same_comm a.items.quantity]

theorem same_self (defined : ∀ aspect, a.get aspect ≠ .real .nan) : a.same a = true :=
  same_iff.mpr ⟨fun _ => rfl, defined⟩

theorem same_trans (first : a.same b = true) (second : b.same c = true) : a.same c = true := by
  obtain ⟨alike, defined⟩ := same_iff.mp first
  exact same_iff.mpr ⟨fun aspect => (alike aspect).trans ((same_iff.mp second).1 aspect), defined⟩

/-- Limits where they are held. Each limit is an object, and two may be one object. -/
structure Held where
  depth : Nat
  items : Nat

namespace Held

variable (numbers : Nat → Number)

def limits (h : Held) : Limits := ⟨numbers h.depth, numbers h.items⟩

/-- An object is the same as itself, whatever it is worth. -/
def sameObject (i j : Nat) : Bool := i == j || (numbers i).quantity.same (numbers j).quantity

def same (a b : Held) : Bool :=
  sameObject numbers a.depth b.depth && sameObject numbers a.items b.items

/-- The residue of a number, or the object if its number has none. -/
def objectDigest (i : Nat) : Int ⊕ Nat :=
  match (numbers i).residue with
  | some r => .inl r
  | none => .inr i

def digest (h : Held) : (Int ⊕ Nat) × (Int ⊕ Nat) :=
  (objectDigest numbers h.depth, objectDigest numbers h.items)

variable {numbers}

theorem sameObject_iff {i j : Nat} : sameObject numbers i j = true ↔
    i = j ∨ (numbers i).quantity = (numbers j).quantity ∧ numbers i ≠ .real .nan := by
  rw [sameObject, Bool.or_eq_true, beq_iff_eq, Number.quantity_same_iff]

theorem sameObject_self (i : Nat) : sameObject numbers i i = true := sameObject_iff.mpr (.inl rfl)

theorem sameObject_comm (i j : Nat) : sameObject numbers i j = sameObject numbers j i := by
  rw [sameObject, sameObject, Quantity.same_comm, Bool.beq_comm]

theorem quantity_eq_of_sameObject {i j : Nat} (same : sameObject numbers i j = true) :
    (numbers i).quantity = (numbers j).quantity := by
  rcases sameObject_iff.mp same with rfl | ⟨worth, _⟩
  · rfl
  · exact worth

theorem sameObject_trans {i j k : Nat} (first : sameObject numbers i j = true)
    (second : sameObject numbers j k = true) : sameObject numbers i k = true := by
  rcases sameObject_iff.mp first with rfl | ⟨worth, defined⟩
  · exact second
  · exact sameObject_iff.mpr (.inr ⟨worth.trans (quantity_eq_of_sameObject second), defined⟩)

theorem objectDigest_eq_of_sameObject {i j : Nat} (same : sameObject numbers i j = true) :
    objectDigest numbers i = objectDigest numbers j := by
  rcases sameObject_iff.mp same with rfl | ⟨worth, defined⟩
  · rfl
  · obtain ⟨r, residue⟩ := Number.exists_residue defined
    have residue' : (numbers j).residue = some r := (Number.residue_congr worth).symm.trans residue
    rw [objectDigest, objectDigest, residue, residue']

/-- Only for an undefined number does it matter which object it is. -/
theorem sameObject_of_defined {i : Nat} (defined : numbers i ≠ .real .nan) (j : Nat) :
    sameObject numbers i j = (numbers i).quantity.same (numbers j).quantity := by
  rw [Bool.eq_iff_iff, sameObject_iff, Number.quantity_same_iff]
  constructor
  · rintro (rfl | worth)
    · exact ⟨rfl, defined⟩
    · exact worth
  · exact .inr

variable {x y z : Held}

theorem same_iff : x.same numbers y = true ↔
    sameObject numbers x.depth y.depth = true ∧ sameObject numbers x.items y.items = true :=
  Bool.and_eq_true_iff

theorem same_self (x : Held) : x.same numbers x = true :=
  same_iff.mpr ⟨sameObject_self _, sameObject_self _⟩

theorem same_comm (x y : Held) : x.same numbers y = y.same numbers x := by
  rw [same, same, sameObject_comm x.depth, sameObject_comm x.items]

theorem same_trans (first : x.same numbers y = true) (second : y.same numbers z = true) :
    x.same numbers z = true := by
  obtain ⟨depth, items⟩ := same_iff.mp first
  obtain ⟨depth', items'⟩ := same_iff.mp second
  exact same_iff.mpr ⟨sameObject_trans depth depth', sameObject_trans items items'⟩

theorem alike_of_same (same : x.same numbers y = true) :
    (x.limits numbers).Alike (y.limits numbers) := by
  obtain ⟨depth, items⟩ := same_iff.mp same
  rintro (_ | _)
  · exact quantity_eq_of_sameObject depth
  · exact quantity_eq_of_sameObject items

theorem digest_eq_of_same (same : x.same numbers y = true) :
    x.digest numbers = y.digest numbers := by
  obtain ⟨depth, items⟩ := same_iff.mp same
  rw [digest, digest, objectDigest_eq_of_sameObject depth, objectDigest_eq_of_sameObject items]

theorem same_of_defined (defined : ∀ aspect, (x.limits numbers).get aspect ≠ .real .nan)
    (y : Held) : x.same numbers y = (x.limits numbers).same (y.limits numbers) := by
  rw [same, sameObject_of_defined (defined .depth), sameObject_of_defined (defined .items)]
  rfl

end Held

theorem Alike.isExceeded (alike : a.Alike b) (aspect : Aspect) (n : Number) :
    a.isExceeded aspect n = b.isExceeded aspect n := by
  rw [Limits.isExceeded, Limits.isExceeded, alike aspect]

theorem Alike.exceeds (alike : a.Alike b) (x : Visit) : x.exceeds a = x.exceeds b :=
  alike.isExceeded _ _

theorem outcome_reject (logger : Logger) (f : Fault) :
    (reject logger f).outcome = .error (.fault f) := by
  cases f <;> rfl

theorem isOk_checkValue (l : Limits) (logger : Logger) (aspect : Aspect) (n : Number)
    (path : Option Value) :
    (l.checkValue logger aspect n.toValue path).outcome.isOk = !l.isExceeded aspect n := by
  simp only [checkValue, Number.toNumber?_toValue, check]
  cases l.isExceeded aspect n with
  | false => rfl
  | true =>
    simp only [↓reduceIte]
    split
    · rw [outcome_reject]
      rfl
    · rfl

theorem Alike.residue (alike : a.Alike b) (aspect : Aspect) :
    (a.get aspect).residue = (b.get aspect).residue := Number.residue_congr (alike aspect)

/-- Equal limits have the same residues, and those are of the limits as they are notated. -/
theorem exists_residues_of_same (same : a.same b = true) : ∃ depth items, ∀ l ∈ [a, b],
    l.depth.residue = some depth ∧ l.items.residue = some items ∧
      l.residues = some (depth, items) := by
  obtain ⟨alike, defined⟩ := same_iff.mp same
  obtain ⟨depth, deep⟩ := Number.exists_residue (defined .depth)
  obtain ⟨items, wide⟩ := Number.exists_residue (defined .items)
  refine ⟨depth, items, ?_⟩
  intro l member
  have worth : l.Alike a := by
    rcases List.mem_pair.mp member with rfl | rfl
    · exact fun _ => rfl
    · exact fun aspect => (alike aspect).symm
  have deep' : l.depth.residue = some depth := (worth.residue .depth).trans deep
  have wide' : l.items.residue = some items := (worth.residue .items).trans wide
  refine ⟨deep', wide', ?_⟩
  rw [residues, Number.residue_quantity, Number.residue_quantity, deep', wide']
  rfl

end Limits

/-- What is logged of a visit that ends a whole run. -/
def Visit.closing (config : Config) (l : Limits) (x : Visit) : List Record :=
  [config.warning (x.fault l), config.announcement (x.fault l)]

/-- A caller tells two runs apart by no more than the limit that is named where both are
refused one visit. -/
inductive Run.Respelled (config : Config) (a b : Limits) (r r' : Run α) : Prop where
  | alike : r.LooksLike r' → Respelled config a b r r'
  | refused {x : Visit} {before : List Record} : x.exceeds a = true → x.exceeds b = true →
      r.outcome = .error (.fault (x.fault a)) → r'.outcome = .error (.fault (x.fault b)) →
      r.journal.calls = r'.journal.calls → r.journal.records = before ++ x.closing config a →
      r'.journal.records = before ++ x.closing config b → Respelled config a b r r'

namespace Decoder

variable {d : Decoder} {defs : Definitions} (ignores : d.Everywhere (·.ignoresLimits))
  (within : defs.Everywhere (·.ignoresLimits)) (fuel : Nat) (logger : Option Logger) (v : Value)

include ignores within

theorem run_of_within {l : Limits} (fits : ∀ x ∈
    (d.runAt defs fuel v (.root ⟨none, logger⟩)).journal.visits, x.exceeds l = false) :
    (d.run defs fuel ⟨some l, logger⟩ v).LooksLike (d.run defs fuel ⟨none, logger⟩ v) := by
  have cut := run_bounded ignores within fuel l logger v
  rw [Run.truncate_eq_self _ _ fits] at cut
  have outcome := congrArg Run.outcome cut
  refine ⟨outcome, ?_, ?_⟩
  · rw [← Run.calls_unlimited, cut]
    rfl
  · rw [← Run.records_unlimited, cut]
    rfl

/-- The first visit that is over its limit ends the run. -/
theorem run_of_first_visit {l : Limits} {before after : Journal} {e : Event} {x : Visit}
    (split : (d.runAt defs fuel v (.root ⟨none, logger⟩)).journal = before ++ e :: after)
    (visit : e.visit? = some x) (exceeds : x.exceeds l = true)
    (earlier : ∀ y ∈ before.visits, y.exceeds l = false) :
    let r := d.run defs fuel ⟨some l, logger⟩ v
    r.outcome = .error (.fault (x.fault l)) ∧ r.journal.calls = before.calls ∧
      r.journal.records = before.records ++ x.closing ⟨none, logger⟩ l := by
  intro r
  have cut := run_bounded ignores within fuel l logger v
  rw [Run.truncate_eq_cut _ _ split visit exceeds earlier, Run.announced_of_located _ _ rfl] at cut
  refine ⟨congrArg Run.outcome cut, ?_, ?_⟩
  · rw [← Run.calls_unlimited, cut]
    cases e <;> cases visit <;> simp [Journal.calls]
  · rw [← Run.records_unlimited, cut]
    cases e <;> cases visit <;>
      simp [Journal.records, Visit.closing, Config.warning, Config.announcement]

/-- Under limits that are alike a run ends at the same visit, if it ends at one at all. -/
theorem run_respelled {a b : Limits} (alike : a.Alike b) :
    (d.run defs fuel ⟨some a, logger⟩ v).Respelled ⟨none, logger⟩ a b
      (d.run defs fuel ⟨some b, logger⟩ v) := by
  by_cases excessive : ∃ x ∈ (d.runAt defs fuel v (.root ⟨none, logger⟩)).journal.visits,
      x.exceeds a = true
  · obtain ⟨before, e, after, x, split, visit, exceeds, earlier⟩ :=
      Journal.exists_first_visit _ excessive
    have exceeds' : x.exceeds b = true := alike.exceeds x ▸ exceeds
    obtain ⟨outcome, calls, records⟩ :=
      run_of_first_visit ignores within fuel logger v split visit exceeds earlier
    obtain ⟨outcome', calls', records'⟩ :=
      run_of_first_visit ignores within fuel logger v split visit exceeds'
        fun y member => alike.exceeds y ▸ earlier y member
    exact .refused exceeds exceeds' outcome outcome' (calls.trans calls'.symm) records records'
  · have fits : ∀ x ∈ (d.runAt defs fuel v (.root ⟨none, logger⟩)).journal.visits,
        x.exceeds a = false := by simpa using excessive
    have plain := run_of_within ignores within fuel logger v fits
    have plain' := run_of_within ignores within fuel logger v
      fun x member => alike.exceeds x ▸ fits x member
    exact .alike ⟨plain.outcome.trans plain'.outcome.symm, plain.calls.trans plain'.calls.symm,
      plain.records.trans plain'.records.symm⟩

end Decoder

namespace Limits

/-- Limits are what was asked for, and their equality is one of worth: symmetric and transitive,
and reflexive but for undefined limits. Limits that are the same have the same residues and are
alike, and under limits that are alike every run that does not report the limits is the same but
for the limit that is named. Where limits share an object they are the same whatever it is worth,
and that equality is reflexive, too, and keeps to digests. -/
theorem equal_limits_are_interchangeable (a b c : Limits) :
    (∀ request, ofRequest request = .ok a →
      ∀ aspect, checked aspect (request.asked aspect) = .ok (a.get aspect)) ∧
    ((∀ aspect, a.get aspect ≠ .real .nan) → a.same a = true) ∧ a.same b = b.same a ∧
    (a.same b = true → b.same c = true → a.same c = true) ∧
    (a.same b = true → a.Alike b ∧ ∃ depth items, ∀ l ∈ [a, b],
      l.depth.residue = some depth ∧ l.items.residue = some items ∧
        l.residues = some (depth, items)) ∧
    (a.Alike b →
      (∀ logger aspect n path, ∀ l ∈ [a, b],
        (l.checkValue logger aspect n.toValue path).outcome.isOk = !a.isExceeded aspect n) ∧
      ∀ (d : Decoder) (defs : Definitions), d.Everywhere (·.ignoresLimits) →
        defs.Everywhere (·.ignoresLimits) → ∀ fuel logger v,
          (d.run defs fuel ⟨some a, logger⟩ v).Respelled ⟨none, logger⟩ a b
            (d.run defs fuel ⟨some b, logger⟩ v)) ∧
    ∀ (numbers : Nat → Number) (x y z : Held),
      x.same numbers x = true ∧ x.same numbers y = y.same numbers x ∧
      (x.same numbers y = true → y.same numbers z = true → x.same numbers z = true) ∧
      (x.same numbers y = true →
        (x.limits numbers).Alike (y.limits numbers) ∧ x.digest numbers = y.digest numbers) ∧
      ((∀ aspect, (x.limits numbers).get aspect ≠ .real .nan) →
        x.same numbers y = (x.limits numbers).same (y.limits numbers)) := by
  refine ⟨fun _ => checked_of_ofRequest, same_self, same_comm a b, same_trans, ?_, ?_, ?_⟩
  · exact fun same => ⟨(same_iff.mp same).1, exists_residues_of_same same⟩
  · intro alike
    constructor
    · intro logger aspect n path l member
      rw [isOk_checkValue]
      rcases List.mem_pair.mp member with rfl | rfl
      · rfl
      · rw [alike.isExceeded]
    · intro d defs ignores within fuel logger v
      exact Decoder.run_respelled ignores within fuel logger v alike
  · intro numbers x y z
    exact ⟨Held.same_self x, Held.same_comm x y, Held.same_trans,
      fun same => ⟨Held.alike_of_same same, Held.digest_eq_of_same same⟩,
      fun defined => Held.same_of_defined defined y⟩

/-- A truth value, an integer and a float of one worth are one limit, named in three ways. One
undefined number that two limits share is the same where it is held. -/
theorem equal_limits_are_interchangeable_kinds :
    let one := Binary64.finite false 4503599627370496 (-52)
    let request : LimitsRequest := ⟨[("max_nesting_depth", .int 7)],
      some [("max_nesting_depth", .float one), ("max_array_items", .int 9007199254740993)]⟩
    let a : Limits := ⟨.flag true, .whole 9007199254740993⟩
    let b : Limits := ⟨.whole 1, .whole 9007199254740993⟩
    let c : Limits := ⟨.real one, .whole 9007199254740993⟩
    let d : Decoder := .array (.ref "nest")
    let defs : Definitions := [("nest", d)]
    let v : Value := .list [.list [.list []]]
    let r (l : Limits) := d.run defs 4 ⟨some l, none⟩ v
    let path : List Value := [.text "array at index 0", .text "array at index 0"]
    let numbers (i : Nat) : Number := if i = 0 then .real .nan else .whole 7
    let x : Held := ⟨0, 1⟩
    let y : Held := ⟨0, 2⟩
    ofRequest request = .ok c ∧ checked .depth (request.asked .depth) = .ok (.real one) ∧
      a.same b = true ∧ b.same c = true ∧ a.same c = true ∧ a.residues = c.residues ∧
      d.Everywhere (·.ignoresLimits) ∧ defs.Everywhere (·.ignoresLimits) ∧
      (r a).outcome =
        .error (.fault (.located .limit "Nesting depth 2 exceeds limit True" path)) ∧
      (r c).outcome =
        .error (.fault (.located .limit "Nesting depth 2 exceeds limit 1.0" path)) ∧
      (r a).Respelled ⟨none, none⟩ a c (r c) ∧
      x.same numbers y = true ∧ x.digest numbers = y.digest numbers ∧
      (x.limits numbers).same (y.limits numbers) = false := by
  intro one request a b c d defs v r path numbers x y
  have accepted : ofRequest request = .ok c := rfl
  have first : a.same b = true := by decide
  have second : b.same c = true := by decide
  have ignores : d.Everywhere (·.ignoresLimits) := by decide
  have within : defs.Everywhere (·.ignoresLimits) := by decide
  obtain ⟨asked, _⟩ := equal_limits_are_interchangeable c c c
  obtain ⟨_, _, _, both, _⟩ := equal_limits_are_interchangeable a b c
  obtain ⟨_, _, _, _, of_same, of_alike, held⟩ := equal_limits_are_interchangeable a c c
  obtain ⟨alike, depth, items, residues⟩ := of_same (both first second)
  have shared : x.same numbers y = true := by decide
  obtain ⟨_, digests⟩ := (held numbers x y y).2.2.2.1 shared
  have residue := (residues a (List.mem_pair.mpr (.inl rfl))).2.2
  have residue' := (residues c (List.mem_pair.mpr (.inr rfl))).2.2
  exact ⟨accepted, asked request accepted .depth, first, second, both first second,
    residue.trans residue'.symm, ignores, within, rfl, rfl,
    (of_alike alike).2 d defs ignores within 4 none v, shared, digests, rfl⟩

end Limits

end Intake
