import Intake.Proofs.Reporting

/-! Whom records are put down to. A run with a logger of its own is the run without one, each
record put down to that logger (`Decoder.runAt_attributed`). -/
namespace Intake

def Record.attributed (logger : Logger) (record : Record) : Record :=
  { record with logger := logger }

def Context.attributed (logger : Logger) (c : Context) : Context :=
  { c with config := { c.config with logger := some logger } }

def Event.attributed (logger : Logger) : Event → Event
  | .entered d c v => .entered d (c.attributed logger) v
  | .descended c => .descended (c.attributed logger)
  | .counted size c => .counted size (c.attributed logger)
  | .logged record => .logged (record.attributed logger)
  | e => e

namespace Run

/-- The run with a logger in force throughout. -/
def attributed (logger : Logger) (r : Run α) : Run α :=
  r.seen fun e => some (e.attributed logger)

variable (logger : Logger)

/-- Callbacks know nothing of loggers. -/
theorem attributed_call (f : Callback) (v : Value) :
    (f.call v).attributed logger = f.call v := by
  have plain : ∀ e ∈ (f.call v).journal, some (e.attributed logger) = some e := by
    intro e member
    rcases Callback.mem_journal_call member with rfl | ⟨_, rfl⟩ | ⟨_, rfl⟩ <;> rfl
  rw [attributed, seen, List.filterMap_congr plain, List.filterMap_some]

theorem attributed_announced (other : Logger) (r : Run α) :
    (r.announced other).attributed logger = (r.attributed logger).announced logger := by
  obtain ⟨journal, outcome⟩ := r
  match outcome with
  | .ok a => rfl
  | .error .exhausted => rfl
  | .error (.fault f) =>
    cases located : f.isLocated <;>
      simp [attributed, announced, seen, located, Event.attributed, Record.attributed]

@[simp] theorem calls_attributed (r : Run α) :
    (r.attributed logger).journal.calls = r.journal.calls :=
  projection_seen Journal.calls_append (fun e => by cases e <;> rfl) r

@[simp] theorem records_attributed (r : Run α) :
    (r.attributed logger).journal.records = r.journal.records.map (Record.attributed logger) := by
  simp only [attributed, seen, Journal.records, List.filterMap_filterMap, List.map_filterMap]
  exact congrArg (fun f => r.journal.filterMap f) (funext fun e => by cases e <;> rfl)

end Run

/-- A check warns through whoever is in force, and does not depend on it otherwise. -/
theorem Context.check_attributed (logger : Logger) (c : Context) (aspect : Aspect) (n : Int) :
    (c.attributed logger).check aspect n = (c.check aspect n).attributed logger := by
  obtain ⟨head, ancestors, limits, current⟩ := c
  cases limits with
  | none => rfl
  | some l =>
    cases exceeded : l.isExceeded aspect (.whole n) <;>
      simp only [check, attributed, exceeded] <;> rfl

def Congruence.attribution (logger : Logger) : Congruence where
  contexts c c' := c' = c.attributed logger
  rejections m m' := m = m'
  runs r r' := r' = r.attributed logger
  push := by
    rintro c _ fragment rfl
    rfl
  pure := Eq.refl (Run.attributed logger (Run.pure _))
  bind := by
    rintro _ r _ _ f f' rfl rest
    rw [Run.attributed, Run.attributed, Run.seen_bind]
    exact congrArg _ (funext rest)
  rescue := by
    rintro _ r _ h h' rfl rest
    rw [Run.attributed, Run.attributed, Run.seen_rescue]
    exact congrArg _ (funext fun m => rest m m rfl)
  settle := by
    rintro _ _ _ rfl
    rfl
  rejected := by
    rintro c _ _ _ _ rfl rfl
    rfl
  arrive := by
    rintro c _ rfl
    have checked := c.check_attributed logger .depth c.depth
    exact congrArg (fun r : Run Unit => (Run.emit _).bind fun _ => r) checked
  count := by
    rintro c _ size rfl
    have checked := c.check_attributed logger .items size
    exact congrArg (fun r : Run Unit => (Run.emit _).bind fun _ => r) checked

theorem Decoder.Raises.attributed {d : Decoder} {v : Value} {fault : Context → Fault}
    (raises : d.Raises v fault) (logger : Logger) (c : Context) :
    fault (c.attributed logger) = fault c := by
  cases raises <;> rfl

namespace Decoder

variable {defs : Definitions} {fuel : Nat} {v : Value}

/-- From any place, the run with a logger is the run without, put down to the logger. -/
theorem runAt_attributed (d : Decoder) (defs : Definitions) (fuel : Nat) (logger : Logger)
    (v : Value) (c : Context) :
    d.runAt defs fuel v (c.attributed logger) = (d.runAt defs fuel v c).attributed logger := by
  apply (Congruence.attribution logger).runAt_of_forall rfl (fun _ => rfl) _ fuel d v c _ rfl
  rintro fuel d v c _ rfl body
  apply (Congruence.attribution logger).entering rfl
  refine body ⟨?_, fun f _ w => (Run.attributed_call logger f w).symm, ?_⟩
  · intro _ fault raises
    rw [raises.attributed logger c]
    rfl
  · intro _
    rfl

theorem run_attributed (d : Decoder) (defs : Definitions) (fuel : Nat) (config : Config)
    (logger : Logger) (v : Value) : d.run defs fuel { config with logger := some logger } v =
      (d.run defs fuel config v).attributed logger := by
  have placed := d.runAt_attributed defs fuel logger v (.root config)
  rw [run, run, Run.attributed_announced, ← placed]
  rfl

/-- Each record is the announcement of the failure, tells of an option that was rejected, or
warns of a limit. -/
theorem source_of_record {d : Decoder} {config : Config} {record : Record}
    (member : record ∈ (d.run defs fuel config v).journal.records) :
    (∃ m, record = config.announcement m) ∨ (∃ name m, record = config.rejection name m) ∨
      ∃ m, record = config.warning m := by
  rcases Run.mem_records_announced member with inside | announced
  · cases level : record.level with
    | debug => exact .inr (.inl (d.runAt_accounts defs fuel v _ record inside level).exists_eq)
    | warning => exact .inr (.inr ((d.runAt_heeds defs fuel v _).eq_warning inside level).2)
  · exact .inl announced

end Decoder

/-- Which logger is in force changes nothing but the names that records are put down to: all to
that logger, and without one each to the part of the library that it comes from. -/
theorem Candidate.logger_is_immaterial (p : Candidate) (defs : Definitions) (fuel : Nat)
    (limits : Option Limits) (logger : Logger) (v : Value) :
    let own := p.run defs fuel ⟨limits, some logger⟩ v
    let plain := p.run defs fuel ⟨limits, none⟩ v
    own.outcome = plain.outcome ∧ own.journal.calls = plain.journal.calls ∧
      own.journal.records = plain.journal.records.map (fun record => { record with logger }) ∧
      ∀ record ∈ plain.journal.records,
        (∃ m : Fault, record =
          ⟨.debug, .named Source.engine.loggerName, "Parse failed: " ++ m.message⟩) ∨
        (∃ name m, record =
          ⟨.debug, .named Source.alternatives.loggerName, Action.rejection name m⟩) ∨
        ∃ m : Fault, record = ⟨.warning, .named Source.structures.loggerName,
          "Structural limit exceeded: " ++ m.message⟩ := by
  intro own plain
  cases built : p.toDecoder with
  | error fault =>
    have raised (config : Config) :
        p.run defs fuel config v = Run.raise (.unbuilt fault) := by simp only [run, built]
    rw [show own = _ from raised _, show plain = _ from raised _]
    exact ⟨rfl, rfl, rfl, List.forall_mem_nil _⟩
  | ok d =>
    have ran (config : Config) : p.run defs fuel config v = d.run defs fuel config v := by
      simp only [run, built]
    have attributed : own = plain.attributed logger := by
      rw [show own = _ from ran _, show plain = _ from ran _]
      exact d.run_attributed defs fuel ⟨limits, none⟩ logger v
    rw [attributed]
    refine ⟨rfl, plain.calls_attributed logger, plain.records_attributed logger, ?_⟩
    intro record member
    rw [show plain = _ from ran _] at member
    exact Decoder.source_of_record member

end Intake
