import Intake.Proofs.Traversal

/-! Decoders put in sequence. However compositions, functions on results and conditions are
nested, the decoder does what the flat composition of its stages does. -/
namespace Intake

/-- Combinators that only put decoders in sequence, nested in any way around others. -/
inductive Pipeline where
  | stage (d : Decoder)
  | compose (first : Pipeline) (rest : List Pipeline)
  | map (of : Pipeline) (f : Callback)
  | preCondition (of : Pipeline) (predicate : Callback)
  | postCondition (of : Pipeline) (predicate : Callback)

namespace Pipeline

mutual

def toDecoder : Pipeline → Decoder
  | .stage d => d
  | .compose first rest => .compose first.toDecoder (toDecoders rest)
  | .map of f => .map of.toDecoder f
  | .preCondition of predicate => .preCondition of.toDecoder predicate
  | .postCondition of predicate => .postCondition of.toDecoder predicate

def toDecoders : List Pipeline → List Decoder
  | [] => []
  | p :: rest => p.toDecoder :: toDecoders rest

end

/-- A condition as a stage of its own, which passes its input on. -/
def conditionStage (predicate : Callback) : Decoder :=
  .preCondition (.primitive .identity) predicate

mutual

def stages : Pipeline → List Decoder
  | .stage d => [d]
  | .compose first rest => first.stages ++ stagesOf rest
  | .map of f => of.stages ++ [.lift f]
  | .preCondition of predicate => conditionStage predicate :: of.stages
  | .postCondition of predicate => of.stages ++ [conditionStage predicate]

def stagesOf : List Pipeline → List Decoder
  | [] => []
  | p :: rest => p.stages ++ stagesOf rest

end

theorem stages_ne_nil (p : Pipeline) : p.stages ≠ [] := by
  cases p with
  | stage d => simp [stages]
  | compose first rest => simp [stages, first.stages_ne_nil]
  | map of f => simp [stages]
  | preCondition of predicate => simp [stages]
  | postCondition of predicate => simp [stages]

end Pipeline

def Event.unentered : Event → Option Event
  | .entered _ _ _ => none
  | e => some e

namespace Run

abbrev unentered (r : Run α) : Run α := r.seen Event.unentered

theorem looksLike_of_unentered {r r' : Run α} (same : r.unentered = r'.unentered) :
    r.LooksLike r' :=
  looksLike_of_seen (fun e => by cases e <;> rfl) (fun e => by cases e <;> rfl) same

end Run

theorem Action.compose_append (first second : List Action) (v : Value) (c : Context) :
    compose (first ++ second) v c = (compose first v c).bind fun w => compose second w c := by
  induction first generalizing v with
  | nil => exact (Run.pure_bind v fun w => compose second w c).symm
  | cons act first ih =>
    change (act v c).bind (fun w => compose (first ++ second) w c) =
      ((act v c).bind fun w => compose first w c).bind fun w => compose second w c
    rw [Run.bind_assoc]
    exact congrArg _ (funext ih)

namespace Decoder

variable {resolve : String → Action}

def actAll (resolve : String → Action) (stages : List Decoder) : Action :=
  .compose (stages.map (action resolve))

theorem actAll_append (first second : List Decoder) (v : Value) (c : Context) :
    actAll resolve (first ++ second) v c =
      (actAll resolve first v c).bind fun w => actAll resolve second w c := by
  rw [actAll, List.map_append, Action.compose_append]
  rfl

theorem actAll_singleton (d : Decoder) : actAll resolve [d] = d.action resolve := by
  funext v c
  exact Run.bind_pure _

theorem actAll_cons (d : Decoder) (rest : List Decoder) (v : Value) (c : Context) :
    actAll resolve (d :: rest) v c = (d.action resolve v c).bind fun w => actAll resolve rest w c :=
  rfl

theorem unentered_action (d : Decoder) (v : Value) (c : Context) :
    (d.action resolve v c).unentered = (d.body resolve v c).unentered := by
  rw [action_eq_run]
  rfl

theorem unentered_compose (first : Decoder) (rest : List Decoder) (v : Value) (c : Context) :
    ((compose first rest).action resolve v c).unentered =
      (actAll resolve (first :: rest) v c).unentered := unentered_action _ _ _

/-- What comes after a condition that is met is on the value that it was asked of. -/
theorem unentered_conditionStage (predicate : Callback) (v : Value) (c : Context)
    (rest : Value → Run Value) :
    (((Pipeline.conditionStage predicate).action resolve v c).bind rest).unentered =
      ((Action.require predicate v c).bind fun _ => rest v).unentered := by
  have stage : ((Pipeline.conditionStage predicate).action resolve v c).unentered =
      ((Action.require predicate v c).bind fun _ => Run.pure v).unentered := by
    rw [Pipeline.conditionStage, unentered_action]
    exact Run.seen_bind_congr rfl fun _ => unentered_action (.primitive .identity) v c
  calc (((Pipeline.conditionStage predicate).action resolve v c).bind rest).unentered
      = (((Action.require predicate v c).bind fun _ => Run.pure v).bind rest).unentered :=
        Run.seen_bind_congr stage fun _ => rfl
    _ = ((Action.require predicate v c).bind fun _ => rest v).unentered := by
        simp only [Run.bind_assoc, Run.pure_bind]

end Decoder

namespace Pipeline

open Decoder (actAll)

variable {resolve : String → Action}

mutual

/-- What is nested does what its stages do one after the other. -/
theorem unentered_toDecoder (p : Pipeline) (v : Value) (c : Context) :
    (p.toDecoder.action resolve v c).unentered = (actAll resolve p.stages v c).unentered := by
  cases p with
  | stage d => rw [toDecoder, stages, Decoder.actAll_singleton]
  | compose first rest =>
    rw [toDecoder, stages, Decoder.unentered_compose, Decoder.actAll_cons, Decoder.actAll_append]
    exact Run.seen_bind_congr (unentered_toDecoder first v c) fun w => unentered_toDecoders rest w c
  | map of f =>
    rw [toDecoder, stages, Decoder.unentered_action, Decoder.actAll_append]
    refine Run.seen_bind_congr (unentered_toDecoder of v c) fun w => ?_
    rw [Decoder.actAll_singleton]
    exact (Decoder.unentered_action (.lift f) w c).symm
  | preCondition of predicate =>
    rw [toDecoder, stages, Decoder.unentered_action, Decoder.actAll_cons,
      Decoder.unentered_conditionStage]
    exact Run.seen_bind_congr rfl fun _ => unentered_toDecoder of v c
  | postCondition of predicate =>
    rw [toDecoder, stages, Decoder.unentered_action, Decoder.actAll_append]
    refine Run.seen_bind_congr (unentered_toDecoder of v c) fun w => ?_
    exact (Decoder.unentered_conditionStage predicate w c Run.pure).symm

theorem unentered_toDecoders (ps : List Pipeline) (v : Value) (c : Context) :
    (actAll resolve (toDecoders ps) v c).unentered =
      (actAll resolve (stagesOf ps) v c).unentered := by
  cases ps with
  | nil => rfl
  | cons p rest =>
    rw [toDecoders, stagesOf, Decoder.actAll_cons, Decoder.actAll_append]
    exact Run.seen_bind_congr (unentered_toDecoder p v c) fun w => unentered_toDecoders rest w c

end

end Pipeline

namespace Decoder

variable {defs : Definitions} {fuel : Nat} {v : Value} {c : Context}

theorem runAt_compose (first : Decoder) (rest : List Decoder) :
    let stages := actAll (defs.resolve fuel) (first :: rest) v c
    (compose first rest).runAt defs fuel v c =
      ⟨.entered (compose first rest) c v :: stages.journal, stages.outcome⟩ := action_eq_run _ _ _ _

/-- What follows stages that fail adds nothing to them. -/
theorem actAll_of_failed {stages : List Decoder} {stop : Stop} {resolve : String → Action}
    (failed : (actAll resolve stages v c).outcome = .error stop) (later : List Decoder) :
    actAll resolve (stages ++ later) v c = actAll resolve stages v c := by
  rw [actAll_append, Run.bind_of_error failed, ← failed]

/-- Sequencing combinators, however nested, do what one composition of their stages does, and
so composing is associative. After a stage that fails no other is run, nor any callback. -/
theorem pipelines_flatten (defs : Definitions) (fuel : Nat) (v : Value) (c : Context) :
    (∀ p : Pipeline, ∃ first rest, p.stages = first :: rest ∧
      (p.toDecoder.runAt defs fuel v c).LooksLike ((compose first rest).runAt defs fuel v c)) ∧
    (∀ a b d : Decoder, ((compose (compose a [b]) [d]).runAt defs fuel v c).LooksLike
      ((compose a [compose b [d]]).runAt defs fuel v c)) ∧
    ∀ first rest later stop,
      let run := (compose first rest).runAt defs fuel v c
      let longer := (compose first (rest ++ later)).runAt defs fuel v c
      run.outcome = .error stop →
        longer.LooksLike run ∧ longer.journal.tail = run.journal.tail := by
  refine ⟨?_, ?_, ?_⟩
  · intro p
    obtain ⟨first, rest, flat⟩ := List.exists_cons_of_ne_nil p.stages_ne_nil
    refine ⟨first, rest, flat, Run.looksLike_of_unentered ?_⟩
    rw [runAt, runAt, unentered_compose, ← flat]
    exact p.unentered_toDecoder v c
  · intro a b d
    let left : Pipeline := .compose (.compose (.stage a) [.stage b]) [.stage d]
    let right : Pipeline := .compose (.stage a) [.compose (.stage b) [.stage d]]
    have same : left.stages = right.stages := rfl
    have flat : (left.toDecoder.action (defs.resolve fuel) v c).unentered =
        (actAll (defs.resolve fuel) right.stages v c).unentered := by
      rw [← same]
      exact left.unentered_toDecoder v c
    apply Run.looksLike_of_unentered
    exact flat.trans (right.unentered_toDecoder v c).symm
  · intro first rest later stop run longer failed
    have stopped : (actAll (defs.resolve fuel) (first :: rest) v c).outcome = .error stop := by
      rwa [show run = _ from runAt_compose first rest] at failed
    have same := actAll_of_failed stopped later
    have short : run = _ := runAt_compose first rest
    have long : longer = _ := runAt_compose first (rest ++ later)
    rw [← List.cons_append, same] at long
    rw [short, long]
    exact ⟨⟨rfl, rfl, rfl⟩, rfl⟩

/-- A condition gives a message that is no text, and the function around it is not called. -/
theorem pipelines_flatten_refused :
    let f : Callback := ⟨some "f", fun v => ([⟨"f", v⟩], .ok v)⟩
    let refuse : Callback := ⟨some "refuse", fun v => ([⟨"refuse", v⟩], .ok (.list []))⟩
    let p : Pipeline := .map (.preCondition (.stage (.primitive .unknown)) refuse) f
    let condition := Pipeline.conditionStage refuse
    let c : Context := .root .default
    let short := (compose condition []).runAt [] 0 .null c
    let flat := (compose condition [.primitive .unknown, .lift f]).runAt [] 0 .null c
    (p.toDecoder.runAt [] 0 .null c).LooksLike flat ∧
      short.outcome = .error (.fault (.unlocatable (.list []))) ∧ flat.LooksLike short ∧
      flat.journal.tail = short.journal.tail ∧ flat.journal.calls = [⟨"refuse", .null⟩] := by
  intro f refuse p condition c short flat
  obtain ⟨flattens, _, stops⟩ := pipelines_flatten [] 0 .null c
  obtain ⟨first, rest, split, alike⟩ := flattens p
  cases split
  have failed : short.outcome = .error (.fault (.unlocatable (.list []))) := rfl
  obtain ⟨same, tail⟩ := stops condition [] [.primitive .unknown, .lift f] _ failed
  exact ⟨alike, failed, same, tail, rfl⟩

end Decoder

end Intake
