import Intake.Proofs.Congruence

/-! Where faults come from. The fault that a run ends in arose at a decoder that it entered, in
a callback, at a limit or at a name that stands for nothing. -/
namespace Intake

/-- The events of a run account for a fault. -/
inductive Journal.Explains (condition : Decoder → Prop) (defs : Definitions) (config : Config)
    (j : Journal) : Fault → Prop where
  | own : condition d → .entered d c v ∈ j → c.config = config → d.Raises v fault →
      Explains condition defs config j (fault c)
  | called : condition d → .entered d c v ∈ j → f ∈ d.callbacks → (f.apply w).2 = .error fault →
      Explains condition defs config j fault
  | limit : config.limits = some l →
      Explains condition defs config j (.located .limit (l.complaint aspect (.whole n)) path)
  | undefined : condition (.ref name) → defs.lookup name = none →
      Explains condition defs config j (.undefinedReference name)

theorem Callback.outcome_call (f : Callback) (v : Value) :
    (f.call v).outcome = (f.apply v).2.mapError Stop.fault := by
  unfold call
  generalize f.apply v = applied
  obtain ⟨calls, result⟩ := applied
  cases result <;> rfl

theorem Context.fault_check {c : Context} {aspect : Aspect} {n : Int} {m : Fault}
    (ended : (c.check aspect n).outcome = .error (.fault m)) :
    ∃ l, c.config.limits = some l ∧
      m = .located .limit (l.complaint aspect (.whole n)) c.fragments := by
  unfold check at ended
  split at ended
  · cases ended
  next l limited =>
    split at ended
    · cases ended
      exact ⟨l, limited, rfl⟩
    · cases ended

def Congruence.explained (condition : Decoder → Prop) (defs : Definitions) (config : Config)
    (j : Journal) : Congruence where
  contexts c _ := c.config = config
  rejections m _ := j.Explains condition defs config m
  runs r _ := r.journal ⊆ j → ∀ m, r.outcome = .error (.fault m) →
    j.Explains condition defs config m
  push := id
  pure := by
    intro _ _ _ m ended
    cases ended
  bind := by
    intro _ r _ _ f _ first rest inside m ended
    obtain ⟨journal, outcome⟩ := r
    cases outcome with
    | error stop =>
      cases ended
      exact first inside m rfl
    | ok a =>
      obtain ⟨_, later⟩ := List.append_subset.mp inside
      exact rest a later m ended
  rescue := by
    intro _ r _ handler _ first rest inside m ended
    obtain ⟨journal, outcome⟩ := r
    match outcome with
    | .ok _ => cases ended
    | .error .exhausted => cases ended
    | .error (.fault f) =>
      cases mismatch : f.isMismatch with
      | false =>
        simp only [Run.rescue, mismatch] at inside ended
        exact first inside m ended
      | true =>
        rw [Run.rescue_of_mismatch _ mismatch, Run.bind_ok] at inside ended
        obtain ⟨earlier, later⟩ := List.append_subset.mp inside
        exact rest f f (first earlier f rfl) later m ended
  settle := by
    intro _ _ _ explained _ m ended
    cases ended
    exact explained
  rejected := by
    intro _ _ _ _ _ _ _ _ m ended
    cases ended
  arrive := by
    intro c _ same _ m ended
    obtain ⟨l, limited, rfl⟩ := Context.fault_check ended
    exact .limit (same ▸ limited)
  count := by
    intro c _ _ same _ m ended
    obtain ⟨l, limited, rfl⟩ := Context.fault_check ended
    exact .limit (same ▸ limited)

namespace Decoder

/-- The run of a decoder explains the fault that it ends in. -/
theorem fault_explained {condition : Decoder → Prop} {defs : Definitions} {d : Decoder}
    (within : defs.Everywhere condition) (everywhere : d.Everywhere condition) {fuel : Nat}
    {v : Value} {c : Context} {m : Fault}
    (ended : (d.runAt defs fuel v c).outcome = .error (.fault m)) :
    (d.runAt defs fuel v c).journal.Explains condition defs c.config m := by
  generalize whole : (d.runAt defs fuel v c).journal = j
  let K := Congruence.explained condition defs c.config j
  have acts : K.actions (d.runAt defs fuel) (d.runAt defs fuel) := by
    refine K.runAt nofun ?_ ?_ within fuel everywhere
    · intro name here missing _ m ended
      cases ended
      exact .undefined here missing
    · intro fuel e here w c' _ same body inside m ended
      rw [runAt, action_eq_run] at inside ended
      obtain ⟨entered, inside⟩ := List.cons_subset.mp inside
      refine body ⟨?_, ?_, fun _ => nofun⟩ inside m ended
      · intro _ fault raises _ m ended
        cases ended
        exact .own here entered same raises
      · intro f member x _ m ended
        rw [Callback.outcome_call] at ended
        cases applied : (f.apply x).2 with
        | ok _ =>
          rw [applied] at ended
          cases ended
        | error fault =>
          rw [applied] at ended
          cases ended
          exact .called here entered member applied
  exact acts v c c rfl (whole ▸ List.Subset.refl _) m ended

/-- Built from the library's own decoders, with no function and no name that stands for
nothing. -/
def isSelfContained (defs : Definitions) : Decoder → Bool
  | .primitive _ | .constant _ | .object _ | .array _ | .optional _ | .nullable _ |
    .withDefault _ (.value _) | .compose _ _ | .fail (.text _) | .alt _ | .named _ _ => true
  | .ref name => (defs.lookup name).isSome
  | _ => false

/-- Of what a self-contained decoder raises, only the complaint about an integer that
cannot be written is no mismatch. -/
theorem isSelfContained_raises {defs : Definitions} {d : Decoder} {v : Value}
    {fault : Context → Fault} (contained : d.isSelfContained defs = true)
    (raises : d.Raises v fault) (c : Context) :
    (∃ base, fault c = .located .mismatch base c.fragments) ∨
      v.isWritable = false ∧ fault c = .unwritableInteger := by
  have refused (message : String) :
      (∃ base, Fault.refused v message c = .located .mismatch base c.fragments) ∨
        v.isWritable = false ∧ Fault.refused v message c = .unwritableInteger := by
    cases shown : v.isWritable with
    | true => exact .inl ⟨message, by simp only [Fault.refused, shown]; rfl⟩
    | false => exact .inr ⟨rfl, by simp only [Fault.refused, shown]; rfl⟩
  cases raises with
  | primitive _ => exact refused _
  | object _ => exact refused _
  | array _ => exact refused _
  | @fail message =>
    cases message with
    | text base => exact .inl ⟨base, rfl⟩
    | _ => cases contained
  | alt => exact .inl ⟨unexpectedData, rfl⟩
  | preCondition | postCondition | failWith | forbid | broken => cases contained

theorem isSelfContained_callbacks {defs : Definitions} {d : Decoder}
    (contained : d.isSelfContained defs = true) : d.callbacks = [] := by
  cases d with
  | withDefault of default =>
    cases default with
    | value _ => rfl
    | supplier _ => cases contained
  | map | lift | preCondition | postCondition | failWith => cases contained
  | _ => rfl

/-- What a self-contained decoder fails with is a mismatch, a limit in force, or an integer
in a value it looked at that cannot be written. -/
theorem runAt_isSelfContained {defs : Definitions} {d : Decoder} {fuel : Nat} {v : Value}
    {c : Context} {m : Fault}
    (within : defs.Everywhere fun e => e.isSelfContained defs = true)
    (everywhere : d.Everywhere fun e => e.isSelfContained defs = true)
    (ended : (d.runAt defs fuel v c).outcome = .error (.fault m)) :
    (∃ base path, m = .located .mismatch base path) ∨
      (c.config.limits ≠ none ∧ ∃ base path, m = .located .limit base path) ∨
      ∃ e c' w, .entered e c' w ∈ (d.runAt defs fuel v c).journal ∧ w.isWritable = false := by
  cases fault_explained within everywhere ended with
  | @own e w fault c' here entered _ raises =>
    rcases isSelfContained_raises here raises c' with ⟨base, located⟩ | ⟨unwritable, _⟩
    · exact .inl ⟨base, c'.fragments, located⟩
    · exact .inr (.inr ⟨e, c', w, entered, unwritable⟩)
  | called here _ member _ =>
    rw [isSelfContained_callbacks here] at member
    cases member
  | limit limited => exact .inr (.inl ⟨by simp [limited], _, _, rfl⟩)
  | undefined here missing =>
    rw [isSelfContained, missing] at here
    cases here

/-- Without functions every failure is one of the library's own: a mismatch, or the
excess over a limit where there are limits. -/
theorem failures_are_located {defs : Definitions} {d : Decoder} {fuel : Nat} {config : Config}
    {v : Value}
    (within : defs.Everywhere fun e => e.isSelfContained defs = true)
    (everywhere : d.Everywhere fun e => e.isSelfContained defs = true)
    (shown : ∀ e c w, .entered e c w ∈ (d.run defs fuel config v).journal → w.isWritable = true)
    (ends : (d.run defs fuel config v).outcome ≠ .error .exhausted) :
    (∃ w, (d.run defs fuel config v).outcome = .ok w) ∨
      (∃ base path,
        (d.run defs fuel config v).outcome = .error (.fault (.located .mismatch base path))) ∨
      config.limits ≠ none ∧ ∃ base path,
        (d.run defs fuel config v).outcome = .error (.fault (.located .limit base path)) := by
  obtain ⟨closing, whole⟩ := Run.journal_announced (config.loggerFor .engine)
    (d.runAt defs fuel v (.root config))
  rw [run, whole] at shown
  rw [run, Run.outcome_announced] at ends ⊢
  cases ended : (d.runAt defs fuel v (.root config)).outcome with
  | ok w => exact .inl ⟨w, rfl⟩
  | error stop =>
    cases stop with
    | exhausted => exact absurd ended ends
    | fault m =>
      rcases runAt_isSelfContained within everywhere ended with
        ⟨base, path, rfl⟩ | ⟨limited, base, path, rfl⟩ | ⟨e, c, w, entered, unwritable⟩
      · exact .inr (.inl ⟨base, path, rfl⟩)
      · exact .inr (.inr ⟨limited, base, path, rfl⟩)
      · rw [shown e c w (List.mem_append_left _ entered)] at unwritable
        cases unwritable

/-- A recursive decoder on a value nested too deeply. -/
theorem failures_are_located_nested :
    let d : Decoder := .ref "nest"
    let defs : Definitions := [("nest", .alt [.primitive .url, .array (.ref "nest")])]
    let config : Config := ⟨some ⟨.whole 1, .whole 10⟩, none⟩
    let v : Value := .list [.list [.list []]]
    d.Everywhere (·.isSelfContained defs) ∧ defs.Everywhere (·.isSelfContained defs) ∧
      ∃ base path, (d.run defs 9 config v).outcome = .error (.fault (.located .limit base path)) := by
  intro d defs config v
  have everywhere : d.Everywhere (·.isSelfContained defs) := by decide
  have within : defs.Everywhere (·.isSelfContained defs) := by decide
  have writable : (d.run defs 9 config v).journal.all
      (fun | .entered _ _ w => w.isWritable | _ => true) = true := by decide
  have shown : ∀ e c w, .entered e c w ∈ (d.run defs 9 config v).journal → w.isWritable = true :=
    fun _ _ _ member => List.all_eq_true.mp writable _ member
  refine ⟨everywhere, within, ?_⟩
  rcases failures_are_located within everywhere shown nofun with
    ⟨_, ok⟩ | ⟨_, _, mismatch⟩ | ⟨_, limit⟩
  · cases ok
  · cases mismatch
  · exact limit

end Decoder

end Intake
