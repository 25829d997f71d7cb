import Intake.Value.Basic

/-!
When two values count as the same, which decides what a key finds in a mapping. Numbers are
compared by worth; the undefined number and foreign objects are the same as nothing.
-/
namespace Intake.Value

mutual

def same : Value → Value → Bool
  | .null, .null => true
  | .absent, .absent => true
  | .text a, .text b => a == b
  | .bytes a, .bytes b => a == b
  | .list a, .list b => sameItems a b
  | .tuple a, .tuple b => sameItems a b
  | .mapping .ordered a, .mapping .ordered b => sameInOrder a b
  | .mapping _ a, .mapping _ b => a.length == b.length && sameEntries a b
  | .moment a, .moment b => a.same b
  | .bool a, b => (b.toNumber?).any fun n => (Number.flag a).quantity.same n.quantity
  | .int a, b => (b.toNumber?).any fun n => (Number.whole a).quantity.same n.quantity
  | .float a, b => (b.toNumber?).any fun n => (Number.real a).quantity.same n.quantity
  | _, _ => false

def sameItems : List Value → List Value → Bool
  | [], [] => true
  | a :: as, b :: bs => a.same b && sameItems as bs
  | _, _ => false

def sameInOrder : List (Value × Value) → List (Value × Value) → Bool
  | [], [] => true
  | (k, v) :: rest, (k', v') :: rest' => k.same k' && v.same v' && sameInOrder rest rest'
  | _, _ => false

/-- Each entry of the first mapping has the same value under the same key in the second. -/
def sameEntries : List (Value × Value) → List (Value × Value) → Bool
  | [], _ => true
  | (k, v) :: rest, other =>
    (other.any fun entry => k.same entry.1 && v.same entry.2) && sameEntries rest other

end

def find? (key : Value) : List (Value × Value) → Option Value
  | [] => none
  | (k, v) :: rest => if key.same k then some v else find? key rest

def lookup (key : Value) (entries : List (Value × Value)) : Value :=
  (find? key entries).getD .absent

/-- Adds an entry; a key already there keeps its place and takes the new value. -/
def put (entries : List (α × β)) (sameKey : α → Bool) (key : α) (value : β) : List (α × β) :=
  match entries with
  | [] => [(key, value)]
  | (k, v) :: rest => if sameKey k then (k, value) :: rest else (k, v) :: put rest sameKey key value

/-- Entries with one entry a key: the place of its first occurrence, the value of its last. -/
def dedupe (entries : List (Value × α)) : List (Value × α) :=
  entries.foldl (fun kept entry => put kept entry.1.same entry.1 entry.2) []

/-- No key is the same as an earlier one. -/
def Distinct (entries : List (Value × α)) : Prop :=
  (entries.map Prod.fst).Pairwise fun earlier later => later.same earlier = false

theorem keys_put (entries : List (α × β)) (sameKey : α → Bool) (key : α) (value : β) :
    (put entries sameKey key value).map Prod.fst =
      if (entries.map Prod.fst).any sameKey then entries.map Prod.fst
      else entries.map Prod.fst ++ [key] := by
  induction entries with
  | nil => rfl
  | cons entry rest ih =>
    obtain ⟨k, v⟩ := entry
    unfold put
    cases found : sameKey k with
    | true => simp [found]
    | false =>
      simp only [List.map_cons, List.any_cons, found, Bool.false_or, Bool.false_eq_true,
        ↓reduceIte, ih]
      split <;> rfl

theorem distinct_put {entries : List (Value × α)} (distinct : Distinct entries) (key : Value)
    (value : α) : Distinct (put entries key.same key value) := by
  unfold Distinct
  rw [keys_put]
  split
  next => exact distinct
  next unseen =>
    have other : ∀ k ∈ entries.map Prod.fst, key.same k = false := by simpa using unseen
    apply List.pairwise_append.mpr
    refine ⟨distinct, List.pairwise_singleton _ _, ?_⟩
    intro k member k' last
    cases List.mem_singleton.mp last
    exact other k member

theorem distinct_dedupe (entries : List (Value × α)) : Distinct (dedupe entries) :=
  List.foldlRecOn entries _ List.Pairwise.nil fun _ distinct entry _ =>
    distinct_put distinct entry.1 entry.2

def mappingOf (kind : MappingKind) (entries : List (Value × Value)) : Value :=
  .mapping kind (dedupe entries)

end Intake.Value
