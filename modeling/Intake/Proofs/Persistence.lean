import Intake.Fault
import Intake.Session

/-! Contexts persist and compare by path. A session remembers each context as it was made
(`Session.Remembers`), so what it shows is read off its own ancestry, and so is its equality.
-/
namespace Intake

namespace Entry

def first (i : Nat) (config : Config) : Entry := ⟨.root config, [i], i⟩

def further (e : Entry) (i : Nat) (fragment : String) : Entry :=
  ⟨e.context.push (.text fragment), i :: e.lineage, e.configOrigin⟩

theorem same_first (i j : Nat) (config config' : Config) :
    (first i config).same (first j config') = true := by
  simp [same, first, numberedLinks, Context.links, Context.root, sameChain, Link.same, Value.same]

theorem same_first_further (e : Entry) (i j : Nat) (config : Config) (fragment : String) :
    (first i config).same (e.further j fragment) = (i == j) := by
  simp [same, first, further, numberedLinks, Context.links, Context.root, Context.push, sameChain,
    Link.same, Value.same]

theorem same_further_first (e : Entry) (i j : Nat) (config : Config) (fragment : String) :
    (e.further i fragment).same (first j config) = (i == j) := by
  simp [same, first, further, numberedLinks, Context.links, Context.root, Context.push, sameChain,
    Link.same, Value.same]

theorem same_further (e e' : Entry) (i j : Nat) (fragment fragment' : String) :
    (e.further i fragment).same (e'.further j fragment') = (i == j ||
      (fragment == fragment' && e.context.depth + 1 == e'.context.depth + 1) && e.same e') := by
  simp [same, further, numberedLinks, Context.links, Context.push, sameChain, Link.same, Value.same]

end Entry

/-- A message with a path of texts names each of them, in order. -/
theorem Fault.locatedText_texts (base : String) (path : List String) :
    locatedText base (path.map .text) = base ++ String.join (path.map (" in " ++ ·)) := by
  induction path generalizing base with
  | nil => exact String.append_empty.symm
  | cons fragment rest ih =>
    rw [List.map_cons, List.map_cons, String.join_cons, ← String.append_assoc,
      ← String.append_assoc]
    exact ih (base ++ " in " ++ fragment)

namespace Session

/-- A step that makes a context: an empty one, or one a text further in than an earlier one. -/
inductive Step where
  | root (config : Config)
  | push (origin : Nat) (fragment : String)

def step? (s : Session) : Step → Option Session
  | .root config => some (s.openRoot config)
  | .push origin fragment => (s.get? origin).map fun e => s.push e (.text fragment)

def steps? (s : Session) (steps : List Step) : Option Session := steps.foldlM step? s

theorem steps?_cons (s : Session) (step : Step) (rest : List Step) :
    s.steps? (step :: rest) = (s.step? step).bind fun next => next.steps? rest := rfl

def AreOrdered (steps : List Step) : Prop :=
  ∀ i origin fragment, steps[i]? = some (Step.push origin fragment) → origin < i

theorem AreOrdered.take {steps : List Step} (ordered : AreOrdered steps) (now : Nat) :
    AreOrdered (steps.take now) := by
  intro i origin fragment found
  have earlier : i < now := by
    have bound := (List.getElem?_eq_some_iff.mp found).1
    rw [List.length_take] at bound
    omega
  exact ordered i origin fragment ((List.getElem?_take_of_lt earlier).symm.trans found)

theorem ne_of_taken {steps : List Step} {i j : Nat} {step step' : Step}
    (taken : steps[i]? = some step) (taken' : steps[j]? = some step') (apart : step ≠ step') :
    i ≠ j := by
  rintro rfl
  exact apart (Option.some.inj (taken.symm.trans taken'))

/-- How the context of step `i` came about: the step of the empty context that it goes back to,
the configuration of that, and the texts pushed since, newest first. -/
inductive Ancestry (steps : List Step) : Nat → Nat → Config → List String → Prop where
  | root {i : Nat} {config : Config} : steps[i]? = some (.root config) →
      Ancestry steps i i config []
  | push {i origin root : Nat} {fragment : String} {config : Config} {path : List String} :
      steps[i]? = some (.push origin fragment) → Ancestry steps origin root config path →
      Ancestry steps i root config (fragment :: path)

namespace Ancestry

variable {steps : List Step} {i root : Nat} {config : Config} {path : List String}

theorem unique {root' : Nat} {config' : Config} {path' : List String}
    (ancestry : Ancestry steps i root config path)
    (other : Ancestry steps i root' config' path') :
    root = root' ∧ config = config' ∧ path = path' := by
  induction ancestry generalizing path' with
  | root found =>
    cases other with
    | root found' =>
      cases found.symm.trans found'
      exact ⟨rfl, rfl, rfl⟩
    | push found' _ => cases found.symm.trans found'
  | push found _ ih =>
    cases other with
    | root found' => cases found.symm.trans found'
    | push found' before =>
      cases found.symm.trans found'
      obtain ⟨rfl, rfl, rfl⟩ := ih before
      exact ⟨rfl, rfl, rfl⟩

/-- No later step has a part in an ancestry. -/
theorem take (ancestry : Ancestry steps i root config path) (ordered : AreOrdered steps)
    {now : Nat} (made : i < now) : Ancestry (steps.take now) i root config path := by
  induction ancestry with
  | root found => exact .root ((List.getElem?_take_of_lt made).trans found)
  | push found _ ih =>
    have before := ordered _ _ _ found
    exact .push ((List.getElem?_take_of_lt made).trans found) (ih (Nat.lt_trans before made))

end Ancestry

theorem AreOrdered.exists_ancestry {steps : List Step} (ordered : AreOrdered steps) {i : Nat}
    (made : i < steps.length) : ∃ root config path, Ancestry steps i root config path := by
  induction i using Nat.strongRecOn with
  | ind i ih =>
    have found := List.getElem?_eq_getElem made
    match step : steps[i] with
    | .root config => exact ⟨i, config, [], .root (found.trans (congrArg some step))⟩
    | .push origin fragment =>
      rw [step] at found
      have before := ordered i origin fragment found
      obtain ⟨root, config, path, ancestry⟩ := ih origin before (Nat.lt_trans before made)
      exact ⟨root, config, fragment :: path, .push found ancestry⟩

theorem get?_add_of_lt {s : Session} {i : Nat} (e : Entry) (earlier : i < s.size) :
    (s.add e).get? i = s.get? i := List.getElem?_append_left earlier

theorem get?_add_size (s : Session) (e : Entry) : (s.add e).get? s.size = some e :=
  List.getElem?_concat_length

theorem lt_size_of_get? {s : Session} {i : Nat} {e : Entry} (found : s.get? i = some e) :
    i < s.size := (List.getElem?_eq_some_iff.mp found).1

inductive Makes (s : Session) (i : Nat) : Step → Entry → Prop where
  | root : Makes s i (.root config) (.first i config)
  | push : s.get? origin = some e → Makes s i (.push origin fragment) (e.further i fragment)

theorem Makes.add {s : Session} {i : Nat} {step : Step} {e : Entry} (makes : s.Makes i step e)
    (last : Entry) : (s.add last).Makes i step e := by
  cases makes with
  | root => exact .root
  | push found => exact .push ((get?_add_of_lt last (lt_size_of_get? found)).trans found)

/-- The session holds what the steps made, each context as its step made it. -/
structure Remembers (s : Session) (steps : List Step) : Prop where
  size : s.size = steps.length
  makes {i : Nat} {step : Step} : steps[i]? = some step → ∃ e, s.get? i = some e ∧ s.Makes i step e

theorem remembers_empty : empty.Remembers [] where
  size := rfl
  makes found := by cases found

namespace Remembers

variable {s : Session} {steps : List Step}

theorem add (remembers : s.Remembers steps) {step : Step} {e : Entry}
    (makes : s.Makes s.size step e) : (s.add e).Remembers (steps ++ [step]) where
  size := by
    rw [List.length_append, ← remembers.size]
    exact List.length_append
  makes := by
    intro i x found
    rcases Nat.lt_or_ge i steps.length with earlier | last
    · rw [List.getElem?_append_left earlier] at found
      obtain ⟨e', there, made⟩ := remembers.makes found
      exact ⟨e', (get?_add_of_lt e (remembers.size ▸ earlier)).trans there, made.add e⟩
    · rw [List.getElem?_append_right last, List.getElem?_singleton] at found
      split at found
      next rest =>
        have here : i = s.size := by
          rw [remembers.size]
          omega
        cases found
        subst here
        exact ⟨e, get?_add_size s e, makes.add e⟩
      next => cases found

theorem exists_step (remembers : s.Remembers steps) (step : Step)
    (earlier : ∀ origin fragment, step = .push origin fragment → origin < steps.length) :
    ∃ s', s.step? step = some s' ∧ s'.Remembers (steps ++ [step]) := by
  cases step with
  | root config => exact ⟨_, rfl, remembers.add .root⟩
  | push origin fragment =>
    have there := earlier origin fragment rfl
    rw [← remembers.size] at there
    have found : s.get? origin = some s.entries[origin] := List.getElem?_eq_getElem there
    exact ⟨_, congrArg (Option.map _) found, remembers.add (.push found)⟩

/-- As long as each step is onto what is there, all of them succeed and are remembered. -/
theorem exists_steps (remembers : s.Remembers steps) {later : List Step}
    (ordered : AreOrdered (steps ++ later)) :
    ∃ s', s.steps? later = some s' ∧ s'.Remembers (steps ++ later) := by
  induction later generalizing s steps with
  | nil => exact ⟨s, rfl, by rwa [List.append_nil]⟩
  | cons step rest ih =>
    have last : (steps ++ step :: rest)[steps.length]? = some step := by simp
    obtain ⟨next, stepped, remembered⟩ := remembers.exists_step step fun origin fragment same =>
      ordered _ origin fragment (last.trans (congrArg some same))
    rw [List.append_cons] at ordered ⊢
    rw [steps?_cons, stepped]
    exact ih remembered ordered

variable {i root : Nat} {config : Config} {path : List String} {e : Entry}

theorem eq_first (remembers : s.Remembers steps) (begun : steps[i]? = some (.root config))
    (found : s.get? i = some e) : e = .first i config := by
  obtain ⟨_, there, makes⟩ := remembers.makes begun
  cases found.symm.trans there
  cases makes
  rfl

theorem exists_further (remembers : s.Remembers steps) {origin : Nat} {fragment : String}
    (pushed : steps[i]? = some (.push origin fragment)) (found : s.get? i = some e) :
    ∃ e', s.get? origin = some e' ∧ e = e'.further i fragment := by
  obtain ⟨_, there, makes⟩ := remembers.makes pushed
  cases found.symm.trans there
  cases makes with
  | push before => exact ⟨_, before, rfl⟩

/-- What a context is follows from how it came about. -/
theorem exists_entry (remembers : s.Remembers steps)
    (ancestry : Ancestry steps i root config path) :
    ∃ e, s.get? i = some e ∧ e.context = (Context.root config).pushAll (path.map .text) ∧
      e.configOrigin = root := by
  induction ancestry with
  | root begun =>
    obtain ⟨e, found, _⟩ := remembers.makes begun
    obtain rfl := remembers.eq_first begun found
    exact ⟨_, found, rfl, rfl⟩
  | push pushed _ ih =>
    obtain ⟨e, found, _⟩ := remembers.makes pushed
    obtain ⟨e', before, rfl⟩ := remembers.exists_further pushed found
    obtain ⟨_, there, context, origin⟩ := ih
    cases before.symm.trans there
    exact ⟨_, found, congrArg (Context.push · _) context, origin⟩

theorem depth_eq (remembers : s.Remembers steps) (ancestry : Ancestry steps i root config path)
    (found : s.get? i = some e) : e.context.depth = path.length := by
  obtain ⟨_, there, context, _⟩ := remembers.exists_entry ancestry
  cases found.symm.trans there
  rw [context, Context.depth_pushAll, List.length_map]
  exact Int.zero_add _

/-- Chains are the same just when the paths are, however much of them two contexts share. -/
theorem same_iff (remembers : s.Remembers steps) {j root' : Nat} {config' : Config}
    {path' : List String} {e' : Entry} (ancestry : Ancestry steps i root config path)
    (other : Ancestry steps j root' config' path') (found : s.get? i = some e)
    (found' : s.get? j = some e') : e.same e' = true ↔ path = path' := by
  induction ancestry generalizing j path' e e' with
  | root begun =>
    obtain rfl := remembers.eq_first begun found
    cases other with
    | root begun' =>
      obtain rfl := remembers.eq_first begun' found'
      simp [Entry.same_first]
    | push pushed' _ =>
      obtain ⟨inner', _, rfl⟩ := remembers.exists_further pushed' found'
      have apart := ne_of_taken begun pushed' nofun
      simp [Entry.same_first_further, apart]
  | @push i _ _ fragment _ path pushed before ih =>
    obtain ⟨inner, there, rfl⟩ := remembers.exists_further pushed found
    cases other with
    | root begun' =>
      obtain rfl := remembers.eq_first begun' found'
      have apart := ne_of_taken pushed begun' nofun
      simp [Entry.same_further_first, apart]
    | @push _ _ _ fragment' _ path' pushed' before' =>
      obtain ⟨inner', there', rfl⟩ := remembers.exists_further pushed' found'
      rw [Entry.same_further, remembers.depth_eq before there, remembers.depth_eq before' there']
      by_cases shared : i = j
      · -- one step pushed both, and what it pushed onto came about in one way
        subst shared
        cases pushed.symm.trans pushed'
        simp [(before.unique before').2.2]
      · have rest : inner.same inner' = true ↔ path = path' := ih before' there there'
        simp only [Bool.or_eq_true, Bool.and_eq_true, beq_iff_eq, shared, rest, false_or,
          List.cons.injEq]
        constructor
        · rintro ⟨⟨texts, _⟩, paths⟩
          exact ⟨texts, paths⟩
        · rintro ⟨texts, paths⟩
          exact ⟨⟨texts, by rw [paths]⟩, paths⟩

end Remembers

/-- Whatever is made in whatever order, at every moment each context is as its ancestry has it:
its fragments are the texts pushed along it, its depth is their number, and its configuration is
that of the empty context it goes back to. Two contexts are the same just when their paths are,
and a mismatch at a context has its path and names every fragment. -/
theorem contexts_are_persistent {steps : List Step} (ordered : AreOrdered steps) :
    (∀ i < steps.length, ∃ root config path, Ancestry steps i root config path) ∧
    ∀ now ≤ steps.length, ∃ s, empty.steps? (steps.take now) = some s ∧ s.size = now ∧
      ∀ i < now, ∀ root config path, Ancestry steps i root config path →
        ∃ e, s.get? i = some e ∧ e.context.fragments = path.map .text ∧
          e.context.depth = path.length ∧ e.context.config = config ∧ e.configOrigin = root ∧
          (∀ j < now, ∀ root' config' path', Ancestry steps j root' config' path' →
            ∃ e', s.get? j = some e' ∧ (e.same e' = true ↔ path = path')) ∧
          ∀ m, Fault.mismatch (.text m) e.context = .located .mismatch m (path.map .text) ∧
            Fault.message (.located .mismatch m (path.map .text)) =
              m ++ String.join (path.map (" in " ++ ·)) := by
  refine ⟨fun _ => ordered.exists_ancestry, ?_⟩
  intro now past
  obtain ⟨s, reached, remembers⟩ := remembers_empty.exists_steps (ordered.take now)
  refine ⟨s, reached, ?_, ?_⟩
  · rw [remembers.size, List.nil_append, List.length_take]
    omega
  intro i made root config path ancestry
  have lasting := ancestry.take ordered made
  obtain ⟨e, found, context, origin⟩ := remembers.exists_entry lasting
  have fragments : e.context.fragments = path.map .text := by
    rw [context, Context.fragments_pushAll (.root config) _ (Int.le_refl 0)]
    exact List.append_nil _
  refine ⟨e, found, fragments, remembers.depth_eq lasting found, ?_, origin, ?_, ?_⟩
  · rw [context, Context.config_pushAll]
    rfl
  · intro j made' root' config' path' other
    have lasting' := other.take ordered made'
    obtain ⟨e', found', _⟩ := remembers.exists_entry lasting'
    exact ⟨e', found', remembers.same_iff lasting lasting' found found'⟩
  · intro m
    rw [Fault.mismatch, fragments]
    exact ⟨rfl, Fault.locatedText_texts m path⟩

/-- Contexts of different runs, pushed in turn, are the same as soon as their paths are. -/
theorem contexts_are_persistent_branches :
    let steps : List Step := [.root ⟨none, none⟩, .root ⟨some .standard, none⟩, .push 0 "a",
      .push 1 "a", .push 2 "b", .push 2 "c", .push 3 "b"]
    AreOrdered steps ∧ ∃ s e e' e'', empty.steps? steps = some s ∧ s.get? 4 = some e ∧
      s.get? 5 = some e' ∧ s.get? 6 = some e'' ∧ e.same e' = false ∧ e.same e'' = true ∧
      e.configOrigin = 0 ∧ e''.configOrigin = 1 ∧
      (Fault.mismatch (.text "m") e''.context).message = "m in b in a" := by
  intro steps
  have ordered : AreOrdered steps := by
    intro i origin fragment found
    have bound : i < 7 := (List.getElem?_eq_some_iff.mp found).1
    match i with
    | 0 | 1 => cases found
    | 2 | 3 | 4 | 5 | 6 => cases found; decide
  have branch : Ancestry steps 4 0 ⟨none, none⟩ ["b", "a"] := .push rfl (.push rfl (.root rfl))
  have sibling : Ancestry steps 5 0 ⟨none, none⟩ ["c", "a"] := .push rfl (.push rfl (.root rfl))
  have stranger : Ancestry steps 6 1 ⟨some .standard, none⟩ ["b", "a"] :=
    .push rfl (.push rfl (.root rfl))
  obtain ⟨s, reached, _, each⟩ := (contexts_are_persistent ordered).2 7 (Nat.le_refl 7)
  obtain ⟨e, found, _, _, _, origin, compared, _⟩ := each 4 (by decide) _ _ _ branch
  obtain ⟨e', found', apart⟩ := compared 5 (by decide) _ _ _ sibling
  obtain ⟨e'', found'', _, _, _, origin'', _, located⟩ := each 6 (by decide) _ _ _ stranger
  obtain ⟨_, there, same⟩ := compared 6 (by decide) _ _ _ stranger
  cases found''.symm.trans there
  refine ⟨ordered, s, e, e', e'', reached, found, found', found'', ?_, same.mpr rfl, origin,
    origin'', ?_⟩
  · exact Bool.eq_false_iff.mpr fun equal => absurd (apart.mp equal) (by decide)
  · rw [(located "m").1, (located "m").2]
    decide

end Session

end Intake
