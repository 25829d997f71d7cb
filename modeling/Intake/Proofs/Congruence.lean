import Intake.Proofs.Parts

/-! Relations between runs that decoders respect. Whatever a decoder does is put together from
what it does on its own (`Covers`), so related contexts give related runs. With the second run
ignored, a relation is an invariant of runs. -/
namespace Intake

namespace Run

theorem traverse_map (f : β → Run γ) (g : α → β) (elements : List α) :
    traverse f (elements.map g) = traverse (fun a => f (g a)) elements := by
  induction elements with
  | nil => rfl
  | cons a rest ih => rw [List.map_cons, traverse_cons, traverse_cons, ih]

end Run

/-- The faults that a decoder itself raises on a value, by the context it stands at. -/
inductive Decoder.Raises (v : Value) : Decoder → (Context → Fault) → Prop where
  | primitive : p.accept v = .error message → Raises v (.primitive p) (.refused v message)
  | object : v.entries? = none → Raises v (.object fields) (.refused v (notAnObject v))
  | array : v.items? = none → Raises v (.array item) (.refused v (notAnArray v))
  | preCondition : Raises v (.preCondition of predicate) (.mismatch message)
  | postCondition : Raises v (.postCondition of predicate) (.mismatch message)
  | fail : Raises v (.fail message) (.mismatch message)
  | failWith : Raises v (.failWith f) (.mismatch message)
  | alt : Raises v (.alt []) (.mismatch (.text unexpectedData))
  | forbid : Raises v (.forbid message) fun c => .locate .limit message c.fragments
  | broken : Raises v (.broken w) fun _ => .notRunnable w

/-- Which contexts and which runs belong together, where what is done further in comes after
the descent, and may depend on it. -/
structure Threading where
  contexts : Context → Context → Prop
  runs : {α : Type} → Run α → Run α → Prop
  pure : runs (Run.pure a) (Run.pure a)
  bind : runs r r' → (∀ a, runs (f a) (f' a)) → runs (r.bind f) (r'.bind f')
  descend {fragment : String} : contexts c c' → (∀ d d', contexts d d' → runs (f d) (f' d')) →
    runs ((c.descend fragment).bind f) ((c'.descend fragment).bind f')

structure Sequencing where
  contexts : Context → Context → Prop
  runs : {α : Type} → Run α → Run α → Prop
  push : contexts c c' → contexts (c.push fragment) (c'.push fragment)
  pure : runs (Run.pure a) (Run.pure a)
  bind : runs r r' → (∀ a, runs (f a) (f' a)) → runs (r.bind f) (r'.bind f')
  arrive : contexts c c' → runs c.arrive c'.arrive
  count : contexts c c' → runs (c.count size) (c'.count size)

structure Congruence extends Sequencing where
  /-- The mismatches that an ordered choice goes on from. -/
  rejections : Fault → Fault → Prop
  rescue : runs r r' → (∀ m m', rejections m m' → runs (h m) (h' m')) →
    runs (r.rescue h) (r'.rescue h')
  settle : rejections m m' → runs (Run.settle m : Run α) (Run.settle m')
  rejected : contexts c c' → rejections m m' →
    runs (Run.log .debug (c.config.loggerFor .alternatives) (Action.rejection name m))
      (Run.log .debug (c'.config.loggerFor .alternatives) (Action.rejection name m'))

namespace Threading

def actions (K : Threading) (a a' : Action) : Prop :=
  ∀ v c c', K.contexts c c' → K.runs (a v c) (a' v c')

/-- What a decoder does on its own on a value, its parts and descents apart, is respected. -/
structure Covers (K : Threading) (d : Decoder) (v : Value) (c c' : Context) : Prop where
  raise : ∀ {α : Type} fault, d.Raises v fault →
    K.runs (Run.raise (fault c) : Run α) (Run.raise (fault c'))
  call : ∀ f ∈ d.callbacks, ∀ w, K.runs (f.call w) (f.call w)
  inspect : d = .inspect → K.runs (Action.inspect v c) (Action.inspect v c')
  count : ∀ item items, d = .array item → v.items? = some items →
    K.runs (c.count items.length) (c'.count items.length)
  push : ∀ fragment e, d = .push fragment e → K.contexts (c.push fragment) (c'.push fragment)

variable (K : Threading)

theorem traverse {f f' : β → Run γ} {elements : List β}
    (each : ∀ b ∈ elements, K.runs (f b) (f' b)) :
    K.runs (Run.traverse f elements) (Run.traverse f' elements) := by
  induction elements with
  | nil => exact K.pure
  | cons b rest ih =>
    rw [Run.traverse_cons, Run.traverse_cons]
    apply K.bind (each b List.mem_cons_self)
    intro first
    exact K.bind (ih fun x member => each x (List.mem_cons_of_mem b member)) fun _ => K.pure

theorem field {a a' : Action} (related : K.contexts c c') (acts : K.actions a a') :
    K.runs (Action.field entries c (key, a)) (Action.field entries c' (key, a')) := by
  apply K.descend related
  intro d d' inner
  exact K.bind (acts _ d d' inner) fun _ => K.pure

theorem item {a a' : Action} (related : K.contexts c c') (acts : K.actions a a') :
    K.runs (Action.item a c element) (Action.item a' c' element) :=
  K.descend related fun d d' inner => acts _ d d' inner

theorem compose {a a' : Decoder → Action} {stages : List Decoder}
    (each : ∀ d ∈ stages, K.actions (a d) (a' d)) :
    K.actions (Action.compose (stages.map a)) (Action.compose (stages.map a')) := by
  induction stages with
  | nil => exact fun _ _ _ _ => K.pure
  | cons d rest ih =>
    intro v c c' related
    apply K.bind (each d List.mem_cons_self v c c' related)
    intro w
    exact ih (fun e member => each e (List.mem_cons_of_mem d member)) w c c' related

theorem require {c c' : Context} (call : K.runs (f.call v) (f.call v))
    (raise : ∀ message, K.runs (Run.raise (.mismatch message c) : Run Unit)
      (Run.raise (.mismatch message c'))) :
    K.runs (Action.require f v c) (Action.require f v c') := by
  apply K.bind call
  intro message
  cases message.isNull with
  | true => exact K.pure
  | false => exact raise message

/-- Past its entry, a decoder other than an ordered choice respects the relation as soon as
its parts do. -/
theorem body {resolve resolve' : String → Action} {d : Decoder}
    (references : ∀ name, d = .ref name → K.actions (resolve name) (resolve' name))
    (parts : ∀ e ∈ d.parts, K.actions (e.action resolve) (e.action resolve'))
    (choice : ∀ options, d = .alt options → K.runs (d.body resolve v c) (d.body resolve' v c'))
    (related : K.contexts c c') (covers : K.Covers d v c c') :
    K.runs (d.body resolve v c) (d.body resolve' v c') := by
  cases d with
  | primitive p =>
    cases accepted : p.accept v with
    | ok w => simpa only [Decoder.body, Action.primitive, accepted] using K.pure
    | error message =>
      simpa only [Decoder.body, Action.primitive, accepted] using
        covers.raise _ (.primitive accepted)
  | constant w => exact K.pure
  | object fields =>
    cases shape : v.entries? with
    | none =>
      simpa only [Decoder.body, Action.object_of_none shape] using covers.raise _ (.object shape)
    | some entries =>
      simp only [Decoder.body, Action.object_of_some shape]
      apply K.bind _ fun _ => K.pure
      rw [Run.traverse_map, Run.traverse_map]
      apply K.traverse
      intro field inside
      exact K.field related (parts field.2 (List.mem_map_of_mem inside))
  | array item =>
    cases shape : v.items? with
    | none =>
      simpa only [Decoder.body, Action.array_of_none shape] using covers.raise _ (.array shape)
    | some items =>
      simp only [Decoder.body, Action.array_of_some shape]
      apply K.bind (covers.count item items rfl shape)
      intro _
      apply K.bind _ fun _ => K.pure
      apply K.traverse
      intro element _
      exact K.item related (parts item (List.mem_singleton_self _))
  | optional of =>
    simp only [Decoder.body, Action.optional]
    split
    · exact K.pure
    · exact parts of (List.mem_singleton_self _) v c c' related
  | nullable of =>
    simp only [Decoder.body, Action.nullable]
    split
    · exact K.pure
    · exact parts of (List.mem_singleton_self _) v c c' related
  | withDefault of default =>
    apply K.bind (parts of (List.mem_singleton_self _) v c c' related)
    intro w
    cases w.isPresent with
    | true => exact K.pure
    | false =>
      cases default with
      | value w => exact K.pure
      | supplier f => exact covers.call f (List.mem_singleton_self _) .null
  | map of f =>
    apply K.bind (parts of (List.mem_singleton_self _) v c c' related)
    exact covers.call f (List.mem_singleton_self _)
  | lift f => exact covers.call f (List.mem_singleton_self _) v
  | compose first rest => exact K.compose parts v c c' related
  | preCondition of predicate =>
    apply K.bind
    · exact K.require (covers.call predicate (List.mem_singleton_self _) v)
        fun _ => covers.raise _ .preCondition
    · intro _
      exact parts of (List.mem_singleton_self _) v c c' related
  | postCondition of predicate =>
    apply K.bind (parts of (List.mem_singleton_self _) v c c' related)
    intro w
    apply K.bind _ fun _ => K.pure
    exact K.require (covers.call predicate (List.mem_singleton_self _) w)
      fun _ => covers.raise _ .postCondition
  | fail message => exact covers.raise _ .fail
  | failWith f =>
    apply K.bind (covers.call f (List.mem_singleton_self _) v)
    intro _
    exact covers.raise _ .failWith
  | alt options => exact choice options rfl
  | named label of => exact parts of (List.mem_singleton_self _) v c c' related
  | inspect => exact covers.inspect rfl
  | ref name => exact references name rfl v c c' related
  | push fragment of =>
    exact parts of (List.mem_singleton_self _) v _ _ (covers.push fragment of rfl)
  | forbid message => exact covers.raise _ .forbid
  | broken w => exact covers.raise _ .broken

end Threading

namespace Sequencing

def actions (K : Sequencing) (a a' : Action) : Prop :=
  ∀ v c c', K.contexts c c' → K.runs (a v c) (a' v c')

structure Covers (K : Sequencing) (d : Decoder) (v : Value) (c c' : Context) : Prop where
  raise : ∀ {α : Type} fault, d.Raises v fault →
    K.runs (Run.raise (fault c) : Run α) (Run.raise (fault c'))
  call : ∀ f ∈ d.callbacks, ∀ w, K.runs (f.call w) (f.call w)
  inspect : d = .inspect → K.runs (Action.inspect v c) (Action.inspect v c')

variable (K : Sequencing)

def threading : Threading where
  contexts := K.contexts
  runs := K.runs
  pure := K.pure
  bind := K.bind
  descend related each := by
    rw [Context.descend_bind, Context.descend_bind]
    exact K.bind (K.arrive (K.push related)) fun _ => each _ _ (K.push related)

theorem Covers.threading {K : Sequencing} (covers : K.Covers d v c c') (related : K.contexts c c') :
    K.threading.Covers d v c c' where
  raise := covers.raise
  call := covers.call
  inspect := covers.inspect
  count _ _ _ _ := K.count related
  push _ _ _ := K.push related

/-- As `Threading.body`; the contexts of counts and pushes are related as those around them. -/
theorem body {resolve resolve' : String → Action} {d : Decoder}
    (references : ∀ name, d = .ref name → K.actions (resolve name) (resolve' name))
    (parts : ∀ e ∈ d.parts, K.actions (e.action resolve) (e.action resolve'))
    (choice : ∀ options, d = .alt options → K.runs (d.body resolve v c) (d.body resolve' v c'))
    (related : K.contexts c c') (covers : K.Covers d v c c') :
    K.runs (d.body resolve v c) (d.body resolve' v c') :=
  K.threading.body references parts choice related (covers.threading related)

end Sequencing

namespace Congruence

variable (K : Congruence)

/-- Ordered choice once some alternative was rejected: the choice itself raises nothing. -/
theorem alternatives_some {a a' : Decoder → Action} {options : List Decoder}
    (each : ∀ d ∈ options, K.actions (a d) (a' d)) (rejected : K.rejections m m') :
    K.actions
      (Action.alternatives (some m) (options.map fun d => (d.name, a d)))
      (Action.alternatives (some m') (options.map fun d => (d.name, a' d))) := by
  induction options generalizing m m' with
  | nil => exact fun _ _ _ _ => K.settle rejected
  | cons d rest ih =>
    intro v c c' related
    apply K.rescue (each d List.mem_cons_self v c c' related)
    intro n n' next
    apply K.bind (K.rejected related next)
    intro _
    exact ih (fun e member => each e (List.mem_cons_of_mem d member)) next v c c' related

theorem alt {a a' : Decoder → Action} {d : Decoder} {rest : List Decoder}
    (each : ∀ e ∈ d :: rest, K.actions (a e) (a' e)) :
    K.actions (Action.alt ((d :: rest).map fun e => (e.name, a e)))
      (Action.alt ((d :: rest).map fun e => (e.name, a' e))) := by
  intro v c c' related
  apply K.rescue (each d List.mem_cons_self v c c' related)
  intro m m' rejected
  apply K.bind (K.rejected related rejected)
  intro _
  exact K.alternatives_some (fun e member => each e (List.mem_cons_of_mem d member)) rejected
    v c c' related

theorem body {resolve resolve' : String → Action} {d : Decoder}
    (references : ∀ name, d = .ref name → K.actions (resolve name) (resolve' name))
    (parts : ∀ e ∈ d.parts, K.actions (e.action resolve) (e.action resolve'))
    (related : K.contexts c c') (covers : K.Covers d v c c') :
    K.runs (d.body resolve v c) (d.body resolve' v c') := by
  refine K.toSequencing.body references parts ?_ related covers
  rintro options rfl
  cases options with
  | nil => exact covers.raise _ .alt
  | cons first rest => exact K.alt parts v c c' related

/-- Every decoder respects the relation, given that each does so on entering if it
does so afterwards. -/
theorem action {condition : Decoder → Prop} {resolve resolve' : String → Action}
    (references : ∀ name, condition (.ref name) → K.actions (resolve name) (resolve' name))
    (enter : ∀ d, condition d → ∀ v c c', K.contexts c c' →
      (K.Covers d v c c' → K.runs (d.body resolve v c) (d.body resolve' v c')) →
      K.runs (d.action resolve v c) (d.action resolve' v c'))
    {d : Decoder} (everywhere : d.Everywhere condition) :
    K.actions (d.action resolve) (d.action resolve') := by
  induction everywhere with
  | node here _ ih =>
    intro v c c' related
    apply enter _ here v c c' related
    exact K.body (fun name eq => references name (eq ▸ here)) ih related

/-- Where entering is respected too, what follows it decides. -/
theorem entering {resolve resolve' : String → Action} {d : Decoder}
    (emit : K.runs (Run.emit (.entered d c v)) (Run.emit (.entered d c' v)))
    (body : K.runs (d.body resolve v c) (d.body resolve' v c')) :
    K.runs (d.action resolve v c) (d.action resolve' v c') := by
  rw [Decoder.action_eq_entering, Decoder.action_eq_entering]
  exact K.bind emit fun _ => body

/-- The induction over references: what holds of a decoder whose references run with
less fuel holds of every run. -/
theorem runAt {condition : Decoder → Prop} {defs : Definitions}
    (exhausted : K.runs (Run.exhausted : Run Value) Run.exhausted)
    (undefined : ∀ name, condition (.ref name) → defs.lookup name = none →
      K.runs (Run.raise (.undefinedReference name) : Run Value)
        (Run.raise (.undefinedReference name)))
    (enter : ∀ fuel d, condition d → ∀ v c c', K.contexts c c' →
      (K.Covers d v c c' →
        K.runs (d.body (defs.resolve fuel) v c) (d.body (defs.resolve fuel) v c')) →
      K.runs (d.runAt defs fuel v c) (d.runAt defs fuel v c'))
    (within : defs.Everywhere condition) (fuel : Nat) {d : Decoder}
    (everywhere : d.Everywhere condition) :
    K.actions (d.runAt defs fuel) (d.runAt defs fuel) := by
  refine Decoder.runAt_induction (P := fun a => K.actions a a) (fun _ _ _ _ => exhausted)
    (fun name here found _ _ _ _ => undefined name here found) ?_ within fuel everywhere
  intro fuel references d here parts v c c' related
  apply enter fuel d here v c c' related
  exact K.body (fun name eq => references name (eq ▸ here)) parts related

theorem runAt_of_forall {defs : Definitions}
    (exhausted : K.runs (Run.exhausted : Run Value) Run.exhausted)
    (undefined : ∀ name, K.runs (Run.raise (.undefinedReference name) : Run Value)
      (Run.raise (.undefinedReference name)))
    (enter : ∀ fuel d v c c', K.contexts c c' →
      (K.Covers d v c c' →
        K.runs (d.body (defs.resolve fuel) v c) (d.body (defs.resolve fuel) v c')) →
      K.runs (d.runAt defs fuel v c) (d.runAt defs fuel v c'))
    (fuel : Nat) (d : Decoder) : K.actions (d.runAt defs fuel) (d.runAt defs fuel) :=
  K.runAt exhausted (fun name _ _ => undefined name) (fun fuel d _ => enter fuel d)
    defs.everywhere_true fuel d.everywhere_true

end Congruence

end Intake
