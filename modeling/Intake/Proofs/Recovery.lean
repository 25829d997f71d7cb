import Intake.Candidate
import Intake.Proofs.Congruence
import Intake.Proofs.Events

/-! Only a mismatch is ever recovered from. Any other fault that arises in a run is its outcome
and the last thing that happens, and a call inside a run is a whole run. -/
namespace Intake

def Journal.OnlyMismatches (j : Journal) : Prop := ∀ f, .raised f ∈ j → f.isMismatch = true

theorem Journal.OnlyMismatches.append {a b : Journal} (first : a.OnlyMismatches)
    (second : b.OnlyMismatches) : Journal.OnlyMismatches (a ++ b) := by
  intro f member
  rcases List.mem_append.mp member with member | member
  · exact first f member
  · exact second f member

namespace Run

/-- A fault that is no mismatch arises last, and the run ends in it. -/
inductive Conclusive : Run α → Prop where
  | recoverable {journal : Journal} {ending : Except Stop α} : journal.OnlyMismatches →
      (∀ f, ending = .error (.fault f) → f.isMismatch = true) → Conclusive ⟨journal, ending⟩
  | final {journal : Journal} {f : Fault} : journal.OnlyMismatches → f.isMismatch = false →
      Conclusive ⟨journal ++ [.raised f], .error (.fault f)⟩

theorem conclusive_pure (a : α) : (Run.pure a).Conclusive := .recoverable nofun nofun

theorem conclusive_raise (f : Fault) : (raise f : Run α).Conclusive := by
  cases mismatch : f.isMismatch with
  | false =>
    have nothing : Journal.OnlyMismatches [] := nofun
    exact .final nothing mismatch
  | true =>
    refine .recoverable ?_ ?_
    · intro g member
      cases List.mem_singleton.mp member
      exact mismatch
    · intro g ended
      cases ended
      exact mismatch

theorem conclusive_settle (mismatch : m.isMismatch = true) : (settle m : Run α).Conclusive := by
  refine .recoverable nofun ?_
  intro f ended
  cases ended
  exact mismatch

theorem Conclusive.bind {r : Run α} {f : α → Run β} (first : r.Conclusive)
    (rest : ∀ a, (f a).Conclusive) : (r.bind f).Conclusive := by
  cases first with
  | final clean firm => exact .final clean firm
  | @recoverable journal ending clean ended =>
    cases ending with
    | error stop =>
      refine .recoverable clean ?_
      intro m same
      cases same
      exact ended m rfl
    | ok a =>
      have next := rest a
      rw [bind_ok]
      generalize f a = s at next ⊢
      cases next with
      | recoverable later ending => exact .recoverable (clean.append later) ending
      | final later firm =>
        simp only [← List.append_assoc]
        exact .final (clean.append later) firm

theorem Conclusive.rescue {r : Run α} {handler : Fault → Run α} (first : r.Conclusive)
    (rest : ∀ m, m.isMismatch = true → (handler m).Conclusive) :
    (r.rescue handler).Conclusive := by
  refine rescue_induction first fun m failed mismatch => ?_
  cases first with
  | final _ firm =>
    cases failed
    rw [mismatch] at firm
    cases firm
  | @recoverable journal _ clean _ =>
    have paused : (⟨journal, .ok ()⟩ : Run Unit).Conclusive := .recoverable clean nofun
    exact paused.bind fun _ => rest m mismatch

/-- Nothing follows a fault that is no mismatch. -/
theorem Conclusive.last {r : Run α} (conclusive : r.Conclusive) {before after : Journal}
    {f : Fault} (split : r.journal = before ++ .raised f :: after) (firm : f.isMismatch = false) :
    after = [] ∧ r.outcome = .error (.fault f) := by
  have absent {j : Journal} (clean : j.OnlyMismatches) (member : .raised f ∈ j) : False := by
    rw [clean f member] at firm
    cases firm
  cases conclusive with
  | recoverable clean _ =>
    simp only at split
    subst split
    exact (absent clean (by simp)).elim
  | final clean _ =>
    rcases List.eq_nil_or_concat after with rfl | ⟨earlier, e, rfl⟩
    · obtain ⟨_, last⟩ := List.append_inj' split rfl
      cases last
      exact ⟨rfl, rfl⟩
    · rw [List.concat_eq_append, ← List.cons_append, ← List.append_assoc] at split
      obtain ⟨same, _⟩ := List.append_inj' split rfl
      exact (absent clean (by rw [same]; simp)).elim

theorem conclusive_call (f : Callback) (v : Value) : (f.call v).Conclusive := by
  have clean (calls : List Call) :
      Journal.OnlyMismatches (.invoked v :: calls.map Event.called) := by
    intro g member
    rcases List.mem_cons.mp member with member | member
    · cases member
    · obtain ⟨_, _, same⟩ := List.mem_map.mp member
      cases same
  unfold Callback.call
  generalize f.apply v = applied
  obtain ⟨calls, result⟩ := applied
  cases result with
  | ok w => exact .recoverable (clean calls) nofun
  | error fault =>
    have begun : (⟨.invoked v :: calls.map Event.called, .ok ()⟩ : Run Unit).Conclusive :=
      .recoverable (clean calls) nofun
    exact begun.bind fun _ => (conclusive_raise fault : (raise fault : Run Value).Conclusive)

theorem conclusive_emit (e : Event) (silent : ∀ f, e ≠ .raised f) : (emit e).Conclusive := by
  refine .recoverable ?_ nofun
  intro f member
  exact absurd (List.mem_singleton.mp member).symm (silent f)

theorem conclusive_reject (logger : Logger) (f : Fault) : (Limits.reject logger f).Conclusive := by
  unfold Limits.reject
  split
  · exact (conclusive_emit (.logged _) nofun).bind fun _ => conclusive_raise f
  · exact conclusive_raise f

theorem conclusive_check (c : Context) (aspect : Aspect) (n : Int) :
    (c.check aspect n).Conclusive := by
  unfold Context.check
  split
  · exact conclusive_pure ()
  · split
    · exact conclusive_reject _ _
    · exact conclusive_pure ()

theorem conclusive_log (level : Level) (logger : Logger) (message : String) :
    (log level logger message).Conclusive := conclusive_emit (.logged _) nofun

theorem conclusive_arrive (c : Context) : c.arrive.Conclusive :=
  (conclusive_emit (.descended c) nofun).bind fun _ => conclusive_check c _ _

theorem conclusive_count (c : Context) (size : Nat) : (c.count size).Conclusive :=
  (conclusive_emit (.counted size c) nofun).bind fun _ => conclusive_check c _ _

theorem Conclusive.raised {r : Run α} (conclusive : r.Conclusive)
    (ended : r.outcome = .error (.fault f)) (firm : f.isMismatch = false) :
    ∃ before, r.journal = before ++ [.raised f] := by
  cases conclusive with
  | recoverable _ mismatch =>
    rw [mismatch f ended] at firm
    cases firm
  | final _ _ =>
    cases ended
    exact ⟨_, rfl⟩

end Run

def Congruence.conclusive : Congruence where
  contexts _ _ := True
  rejections m _ := m.isMismatch = true
  runs r _ := r.Conclusive
  push := id
  pure := Run.conclusive_pure _
  bind := Run.Conclusive.bind
  rescue first rest := first.rescue fun m mismatch => rest m m mismatch
  settle mismatch := Run.conclusive_settle mismatch
  rejected _ _ := Run.conclusive_log _ _ _
  arrive _ := Run.conclusive_arrive _
  count _ := Run.conclusive_count _ _

namespace Decoder

theorem runAt_conclusive (d : Decoder) (defs : Definitions) (fuel : Nat) (v : Value)
    (c : Context) : (d.runAt defs fuel v c).Conclusive := by
  refine Congruence.conclusive.runAt_of_forall (.recoverable nofun nofun)
    (fun _ => Run.conclusive_raise _) ?_ fuel d v c c trivial
  intro fuel d v c c' related body
  apply Congruence.conclusive.entering
  · exact Run.conclusive_emit (.entered _ _ _) nofun
  · exact body ⟨fun _ _ => Run.conclusive_raise _, fun f _ w => Run.conclusive_call f w,
      fun _ => Run.conclusive_pure _⟩

end Decoder

namespace Run

def HoldsCalls (defs : Definitions) (r : Run α) : Prop :=
  ∀ d c v, .entered d c v ∈ r.journal →
    ∃ fuel before after, r.journal = before ++ (d.runAt defs fuel v c).journal ++ after

/-- Wherever a decoder is entered, the whole run of its call stands in the journal. -/
def PlacesCalls (defs : Definitions) (r : Run α) : Prop :=
  ∀ before d c v after, r.journal = before ++ .entered d c v :: after →
    ∃ fuel, (d.runAt defs fuel v c).journal <+: .entered d c v :: after

variable {defs : Definitions}

theorem PlacesCalls.holdsCalls {r : Run α} (places : r.PlacesCalls defs) : r.HoldsCalls defs := by
  intro d c v member
  obtain ⟨before, after, split⟩ := List.append_of_mem member
  obtain ⟨fuel, later, whole⟩ := places before d c v after split
  exact ⟨fuel, before, later, by rw [List.append_assoc, whole, split]⟩

theorem placesCalls_of_quiet {r : Run α} (quiet : ∀ d c v, .entered d c v ∉ r.journal) :
    r.PlacesCalls defs := by
  intro before d c v after split
  refine absurd ?_ (quiet d c v)
  rw [split]
  exact List.mem_append_right before List.mem_cons_self

theorem PlacesCalls.bind {r : Run α} {f : α → Run β} (first : r.PlacesCalls defs)
    (rest : ∀ a, (f a).PlacesCalls defs) : (r.bind f).PlacesCalls defs := by
  obtain ⟨journal, outcome⟩ := r
  cases outcome with
  | error stop => exact first
  | ok a =>
    intro before d c v after split
    rw [bind_ok] at split
    rcases List.append_eq_append_iff.mp split with ⟨between, _, later⟩ | ⟨between, earlier, whole⟩
    · exact rest a between d c v after later
    · cases between with
      | nil => exact rest a [] d c v after whole.symm
      | cons e between =>
        obtain ⟨rfl, rfl⟩ := List.cons_eq_cons.mp whole
        obtain ⟨fuel, start⟩ := first before d c v between earlier
        exact ⟨fuel, start.trans (List.prefix_append (_ :: between) _)⟩

theorem PlacesCalls.rescue {r : Run α} {handler : Fault → Run α} (first : r.PlacesCalls defs)
    (rest : ∀ m, (handler m).PlacesCalls defs) : (r.rescue handler).PlacesCalls defs := by
  refine rescue_induction first fun m _ _ => ?_
  have paused : (⟨r.journal, .ok ()⟩ : Run Unit).PlacesCalls defs := first
  exact paused.bind fun _ => rest m

theorem placesCalls_of_empty {r : Run α} (empty : r.journal = []) : r.PlacesCalls defs :=
  placesCalls_of_quiet fun d c v member => by simp [empty] at member

theorem placesCalls_raise (f : Fault) : (raise f : Run α).PlacesCalls defs :=
  placesCalls_of_quiet fun d c v member => by simp [raise] at member

theorem placesCalls_call (f : Callback) (v : Value) : (f.call v).PlacesCalls defs := by
  apply placesCalls_of_quiet
  intro d c w member
  rcases Callback.mem_journal_call member with same | ⟨_, same⟩ | ⟨_, same⟩ <;> cases same

theorem placesCalls_log (level : Level) (logger : Logger) (message : String) :
    (log level logger message).PlacesCalls defs :=
  placesCalls_of_quiet fun d c v member => by simp [log, emit] at member

theorem PlacesCalls.announced {r : Run α} (places : r.PlacesCalls defs) (logger : Logger) :
    (r.announced logger).PlacesCalls defs := by
  have paused : (⟨r.journal, .ok ()⟩ : Run Unit).PlacesCalls defs := places
  unfold Run.announced
  split
  · split
    · have closing (record : Record) : (⟨[.logged record], r.outcome⟩ : Run α).PlacesCalls defs :=
        placesCalls_of_quiet fun d c v member => by cases List.mem_singleton.mp member
      exact paused.bind fun _ => closing _
    · exact places
  · exact places

theorem placesCalls_arrive (c : Context) : c.arrive.PlacesCalls defs :=
  placesCalls_of_quiet fun _ _ _ => Context.not_entered_arrive

theorem placesCalls_count (c : Context) (size : Nat) : (c.count size).PlacesCalls defs :=
  placesCalls_of_quiet fun _ _ _ => Context.not_entered_count

end Run

def Congruence.placingCalls (defs : Definitions) : Congruence where
  contexts _ _ := True
  rejections _ _ := True
  runs r _ := r.PlacesCalls defs
  push := id
  pure := Run.placesCalls_of_empty rfl
  bind := Run.PlacesCalls.bind
  rescue first rest := first.rescue fun m => rest m m trivial
  settle _ := Run.placesCalls_of_empty rfl
  rejected _ _ := Run.placesCalls_log _ _ _
  arrive _ := Run.placesCalls_arrive _
  count _ := Run.placesCalls_count _ _

namespace Decoder

theorem runAt_placesCalls (d : Decoder) (defs : Definitions) (fuel : Nat) (v : Value)
    (c : Context) : (d.runAt defs fuel v c).PlacesCalls defs := by
  refine (Congruence.placingCalls defs).runAt_of_forall (Run.placesCalls_of_empty rfl)
    (fun _ => Run.placesCalls_raise _) ?_ fuel d v c c trivial
  intro fuel d v c c' _ body before e c₁ w after split
  have covered : (Congruence.placingCalls defs).Covers d v c c' :=
    ⟨fun _ _ => Run.placesCalls_raise _, fun f _ w => Run.placesCalls_call f w,
      fun _ => Run.placesCalls_of_empty rfl⟩
  have whole : (d.runAt defs fuel v c).journal =
      .entered d c v :: (d.body (defs.resolve fuel) v c).journal := by
    rw [runAt, action_eq_run]
  cases before with
  | nil =>
    obtain ⟨same, _⟩ := List.cons_eq_cons.mp (whole.symm.trans split)
    cases same
    exact ⟨fuel, by rw [split]; exact List.prefix_rfl⟩
  | cons x before =>
    obtain ⟨_, inside⟩ := List.cons_eq_cons.mp (whole.symm.trans split)
    exact body covered before e c₁ w after inside

theorem runAt_holdsCalls (d : Decoder) (defs : Definitions) (fuel : Nat) (v : Value)
    (c : Context) : (d.runAt defs fuel v c).HoldsCalls defs :=
  (d.runAt_placesCalls defs fuel v c).holdsCalls

/-- What a call inside a run cannot recover from ends the whole run. -/
theorem runAt_of_call {d e : Decoder} {defs : Definitions} {fuel : Nat} {v w : Value}
    {c c' : Context} (called : .entered e c' w ∈ (d.runAt defs fuel v c).journal) :
    ∃ fuel' before after,
      (d.runAt defs fuel v c).journal = before ++ (e.runAt defs fuel' w c').journal ++ after ∧
      ∀ f, (e.runAt defs fuel' w c').outcome = .error (.fault f) → f.isMismatch = false →
        after = [] ∧ (d.runAt defs fuel v c).outcome = .error (.fault f) := by
  obtain ⟨fuel', before, after, whole⟩ := runAt_holdsCalls d defs fuel v c e c' w called
  refine ⟨fuel', before, after, whole, ?_⟩
  intro f ended firm
  obtain ⟨earlier, raised⟩ := (runAt_conclusive e defs fuel' w c').raised ended firm
  have split : (d.runAt defs fuel v c).journal = (before ++ earlier) ++ .raised f :: after := by
    rw [whole, raised]
    simp
  exact (runAt_conclusive d defs fuel v c).last split firm

end Decoder

/-- Only the announcement of a located fault follows a fault that is no mismatch. -/
theorem Run.Conclusive.last_announced {r : Run α} (conclusive : r.Conclusive) (logger : Logger)
    {before after : Journal} {f : Fault}
    (split : (r.announced logger).journal = before ++ .raised f :: after)
    (firm : f.isMismatch = false) :
    (r.announced logger).outcome = .error (.fault f) ∧
      after = if f.isLocated then [.logged ⟨.debug, logger, "Parse failed: " ++ f.message⟩]
        else [] := by
  obtain ⟨journal, outcome⟩ := r
  match outcome with
  | .ok a => exact nomatch (conclusive.last split firm).2
  | .error .exhausted => exact nomatch (conclusive.last split firm).2
  | .error (.fault g) =>
    cases located : g.isLocated with
    | false =>
      have same : announced logger (⟨journal, .error (.fault g)⟩ : Run α) =
          ⟨journal, .error (.fault g)⟩ := by
        simp [announced, located]
      rw [same] at split ⊢
      obtain ⟨rfl, ended⟩ := conclusive.last split firm
      cases ended
      simp [located]
    | true =>
      rw [announced_of_located logger journal located] at split ⊢
      rcases List.eq_nil_or_concat after with rfl | ⟨earlier, e, rfl⟩
      · obtain ⟨_, last⟩ := List.append_inj' split rfl
        cases last
      · rw [List.concat_eq_append, ← List.cons_append, ← List.append_assoc] at split
        obtain ⟨inside, last⟩ := List.append_inj' split rfl
        obtain ⟨rfl, ended⟩ := conclusive.last inside firm
        cases ended
        cases last
        simp [located]

/-- Whatever stands for a decoder, its run is conclusive up to the announcement. -/
theorem Candidate.run_eq_announced (p : Candidate) (defs : Definitions) (fuel : Nat)
    (config : Config) (v : Value) :
    ∃ r : Run Value, r.Conclusive ∧
      p.run defs fuel config v = r.announced (config.loggerFor .engine) := by
  unfold run
  cases p.toDecoder with
  | ok d => exact ⟨_, d.runAt_conclusive defs fuel v (.root config), rfl⟩
  | error fault => exact ⟨_, Run.conclusive_raise (.unbuilt fault), rfl⟩

/-- Any fault that is no mismatch, wherever it arises, is the outcome of the whole run,
and nothing but its announcement comes after it. -/
theorem Candidate.only_mismatches_are_recoverable (defs : Definitions) (fuel : Nat) :
    (∀ (d : Decoder) (v : Value) (c : Context),
      (∀ before f after,
        (d.runAt defs fuel v c).journal = before ++ .raised f :: after → f.isMismatch = false →
          after = [] ∧ (d.runAt defs fuel v c).outcome = .error (.fault f)) ∧
      ∀ e c' w, .entered e c' w ∈ (d.runAt defs fuel v c).journal →
        ∃ fuel' before after,
          (d.runAt defs fuel v c).journal =
            before ++ (e.runAt defs fuel' w c').journal ++ after ∧
          ∀ f, (e.runAt defs fuel' w c').outcome = .error (.fault f) → f.isMismatch = false →
            after = [] ∧ (d.runAt defs fuel v c).outcome = .error (.fault f)) ∧
    ∀ (p : Candidate) (config : Config) (v : Value) (before : Journal) (f : Fault)
      (after : Journal),
      (p.run defs fuel config v).journal = before ++ .raised f :: after → f.isMismatch = false →
        (p.run defs fuel config v).outcome = .error (.fault f) ∧
          after = if f.isLocated then
            [.logged ⟨.debug, config.loggerFor .engine, "Parse failed: " ++ f.message⟩] else [] := by
  refine ⟨fun d v c => ⟨fun before f after split firm =>
    (Decoder.runAt_conclusive d defs fuel v c).last split firm, fun e c' w called =>
      Decoder.runAt_of_call called⟩, ?_⟩
  intro p config v before f after split firm
  obtain ⟨r, conclusive, announced⟩ := p.run_eq_announced defs fuel config v
  rw [announced] at split ⊢
  exact conclusive.last_announced _ split firm

theorem Candidate.only_mismatches_are_recoverable_unlocatable :
    (Candidate.run (.decoder (.alt [.alt [.fail (.int 1)], .constant .null])) [] 0 .default
        .null).outcome = .error (.fault (.unlocatable (.int 1))) := by
  have raised : (Candidate.run (.decoder (.alt [.alt [.fail (.int 1)], .constant .null])) [] 0
      .default .null).journal =
        [.entered (.alt [.alt [.fail (.int 1)], .constant .null]) (.root .default) .null,
          .entered (.alt [.fail (.int 1)]) (.root .default) .null,
          .entered (.fail (.int 1)) (.root .default) .null] ++
        .raised (.unlocatable (.int 1)) :: [] := rfl
  exact ((only_mismatches_are_recoverable [] 0).2 _ _ _ _ _ _ raised rfl).1

end Intake
