import Intake.Proofs.Congruence

/-! Fuel bounds how many references are followed one inside another, and nothing else:
a run that ends with some fuel is the same run with any greater amount. -/
namespace Intake

def Congruence.finished : Congruence where
  contexts c c' := c = c'
  rejections m m' := m = m'
  runs r r' := r.outcome ≠ .error .exhausted → r = r'
  push := by
    rintro _ _ _ rfl
    rfl
  pure := fun _ => rfl
  bind := by
    intro _ r r' _ f f' first rest ended
    obtain ⟨journal, outcome⟩ := r
    match outcome with
    | .error .exhausted => exact absurd rfl ended
    | .error (.fault m) =>
      rw [← first nofun]
      rfl
    | .ok a => rw [← first nofun, Run.bind_ok, Run.bind_ok, rest a ended]
  rescue := by
    intro _ r r' h h' first rest ended
    obtain ⟨journal, outcome⟩ := r
    match outcome with
    | .ok a =>
      rw [← first nofun]
      rfl
    | .error .exhausted => exact absurd rfl ended
    | .error (.fault m) =>
      rw [← first nofun]
      cases mismatch : m.isMismatch with
      | false => simp [Run.rescue, mismatch]
      | true =>
        rw [Run.rescue_of_mismatch _ mismatch] at ended ⊢
        rw [Run.rescue_of_mismatch _ mismatch, Run.bind_ok, Run.bind_ok, rest m m rfl ended]
  settle := by
    rintro _ _ _ rfl _
    rfl
  rejected := by
    rintro _ _ _ _ _ rfl rfl _
    rfl
  arrive := by
    rintro _ _ rfl _
    rfl
  count := by
    rintro _ _ _ rfl _
    rfl

namespace Decoder

theorem runAt_of_le {defs : Definitions} {d : Decoder} {fuel more : Nat} (le : fuel ≤ more)
    {v : Value} {c : Context} (ended : (d.runAt defs fuel v c).outcome ≠ .error .exhausted) :
    d.runAt defs more v c = d.runAt defs fuel v c := by
  have enter (resolve resolve' : String → Action) (d : Decoder) (_ : True) (v : Value)
      (c c' : Context) (same : c = c')
      (body : Congruence.finished.Covers d v c c' →
        Congruence.finished.runs (d.body resolve v c) (d.body resolve' v c')) :
      Congruence.finished.runs (d.action resolve v c) (d.action resolve' v c') := by
    subst same
    apply Congruence.finished.entering fun _ => rfl
    exact body ⟨fun _ _ _ => rfl, fun _ _ _ _ => rfl, fun _ _ => rfl⟩
  have references : ∀ name, True →
      Congruence.finished.actions (defs.resolve fuel name) (defs.resolve more name) := by
    clear ended
    induction fuel generalizing more with
    | zero => exact fun _ _ _ _ _ _ ended => absurd rfl ended
    | succ fuel ih =>
      obtain ⟨more, rfl⟩ : ∃ k, more = k + 1 := ⟨more - 1, by omega⟩
      intro name _
      cases found : defs.lookup name with
      | none =>
        simp only [Definitions.resolve, found]
        rintro _ _ _ rfl _
        rfl
      | some e =>
        simp only [Definitions.resolve, found]
        exact Congruence.finished.action (ih (by omega)) (enter _ _) e.everywhere_true
  exact (Congruence.finished.action references (enter _ _) d.everywhere_true v c c rfl ended).symm

/-- Every run that ends has one outcome and one journal, whatever fuel it was given. -/
theorem run_of_le {defs : Definitions} {d : Decoder} {fuel more : Nat} (le : fuel ≤ more)
    {v : Value} {config : Config}
    (ended : (d.run defs fuel config v).outcome ≠ .error .exhausted) :
    d.run defs more config v = d.run defs fuel config v := by
  rw [run, Run.outcome_announced] at ended
  rw [run, run, runAt_of_le le ended]

end Decoder

end Intake
