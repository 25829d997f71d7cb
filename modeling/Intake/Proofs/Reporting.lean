import Intake.Proofs.Choice
import Intake.Proofs.Recovery
import Intake.Proofs.Termination
import Intake.Proofs.Truncation

/-! What a run logs: the first visit that is over a limit, each option that an ordered choice
goes on from, and the located fault that the whole run ends in. -/
namespace Intake

namespace Config

def warning (config : Config) (m : Fault) : Record :=
  ⟨.warning, config.loggerFor .structures, "Structural limit exceeded: " ++ m.message⟩

def announcement (config : Config) (m : Fault) : Record :=
  ⟨.debug, config.loggerFor .engine, "Parse failed: " ++ m.message⟩

end Config

def Record.Announces (record : Record) : Prop := ∃ text, record.message = "Parse failed: " ++ text

theorem Record.not_announces_warning (config : Config) (m : Fault) :
    ¬(config.warning m).Announces := by
  rintro ⟨text, same⟩
  have first := congrArg (·.toList.head?) same
  simp [Config.warning] at first

theorem Record.not_announces_rejection (config : Config) (name : String) (m : Fault) :
    ¬(config.rejection name m).Announces := by
  rintro ⟨text, same⟩
  have first := congrArg (·.toList.head?) same
  simp [Config.rejection, Action.rejection] at first

namespace Journal

/-- Some descent or count fails its check against the limits of the configuration. -/
def Exceeds (config : Config) (j : Journal) : Prop :=
  ∃ l, config.limits = some l ∧ ∃ x ∈ j.visits, x.exceeds l = true

theorem not_exceeds_of_unvisited {config : Config} {j : Journal} (unvisited : j.visits = []) :
    ¬j.Exceeds config := by
  rintro ⟨_, _, _, member, _⟩
  rw [unvisited] at member
  cases member

structure IsCalm (config : Config) (j : Journal) : Prop where
  within : ¬j.Exceeds config
  debug : ∀ record ∈ j.records, record.level = .debug

theorem IsCalm.append {config : Config} {a b : Journal} (first : a.IsCalm config)
    (second : b.IsCalm config) : IsCalm config (a ++ b) where
  within := by
    rintro ⟨l, limited, x, member, exceeds⟩
    rw [visits, List.filterMap_append] at member
    rcases List.mem_append.mp member with member | member
    · exact first.within ⟨l, limited, x, member, exceeds⟩
    · exact second.within ⟨l, limited, x, member, exceeds⟩
  debug := by
    intro record member
    rw [records_append] at member
    rcases List.mem_append.mp member with member | member
    · exact first.debug record member
    · exact second.debug record member

theorem isCalm_of_silent {config : Config} {j : Journal} (unvisited : j.visits = [])
    (silent : j.records = []) : j.IsCalm config :=
  ⟨not_exceeds_of_unvisited unvisited, by simp [silent]⟩

end Journal

theorem Event.records_of_visit {e : Event} {x : Visit} (visit : e.visit? = some x) :
    Journal.records [e] = [] := by
  cases e with
  | logged => cases visit
  | _ => rfl

theorem Callback.records_call (f : Callback) (v : Value) : (f.call v).journal.records = [] := by
  refine List.filterMap_eq_nil_iff.mpr ?_
  intro e member
  rcases mem_journal_call member with rfl | ⟨_, rfl⟩ | ⟨_, rfl⟩ <;> rfl

namespace Run

/-- Limits are kept to, or the run ends at the first visit that is over one of them. -/
inductive Heeds (config : Config) : Run α → Prop where
  | calm {journal : Journal} {ending : Except Stop α} : journal.IsCalm config →
      Heeds config ⟨journal, ending⟩
  | refused {before : Journal} {e : Event} {x : Visit} {l : Limits} : before.IsCalm config →
      config.limits = some l → e.visit? = some x → x.exceeds l = true →
      Heeds config ⟨before ++ [e, .logged (config.warning (x.fault l)), .raised (x.fault l)],
        .error (.fault (x.fault l))⟩

variable {config : Config}

theorem Heeds.bind {r : Run α} {f : α → Run β} (first : r.Heeds config)
    (rest : ∀ a, (f a).Heeds config) : (r.bind f).Heeds config := by
  cases first with
  | refused calm limited visit exceeds => exact .refused calm limited visit exceeds
  | @calm journal ending calm =>
    cases ending with
    | error stop => exact .calm calm
    | ok a =>
      have next := rest a
      rw [bind_ok]
      generalize f a = s at next ⊢
      cases next with
      | calm later => exact .calm (calm.append later)
      | refused later limited visit exceeds =>
        simp only [← List.append_assoc]
        exact .refused (calm.append later) limited visit exceeds

theorem Heeds.rescue {r : Run α} {handler : Fault → Run α} (first : r.Heeds config)
    (rest : ∀ m, (handler m).Heeds config) : (r.rescue handler).Heeds config := by
  refine rescue_induction first fun m failed mismatch => ?_
  cases first with
  | refused _ _ _ _ =>
    cases failed
    cases mismatch
  | calm calm =>
    have paused : (⟨_, .ok ()⟩ : Run Unit).Heeds config := .calm calm
    exact paused.bind fun _ => rest m

theorem heeds_of_silent {r : Run α} (unvisited : r.journal.visits = [])
    (silent : r.journal.records = []) : r.Heeds config :=
  .calm (Journal.isCalm_of_silent unvisited silent)

theorem heeds_log (logger : Logger) (message : String) :
    (log .debug logger message).Heeds config := by
  refine .calm ⟨Journal.not_exceeds_of_unvisited rfl, ?_⟩
  intro record member
  cases List.mem_singleton.mp member
  rfl

/-- A visit that is not over its limit is calm; one that is ends the run. -/
theorem heeds_visit {e : Event} {c : Context} {aspect : Aspect} {n : Int}
    (visit : e.visit? = some ⟨aspect, n, c.fragments⟩) :
    ((emit e).bind fun _ => c.check aspect n).Heeds c.config := by
  have calm (permitted : ∀ l, c.config.limits = some l →
      Visit.exceeds l ⟨aspect, n, c.fragments⟩ = false) : Journal.IsCalm c.config [e] := by
    refine ⟨?_, by simp [Event.records_of_visit visit]⟩
    rintro ⟨l, limited, x, member, exceeds⟩
    simp only [Journal.visits, List.filterMap_cons, visit, List.filterMap_nil,
      List.mem_singleton] at member
    subst member
    rw [permitted l limited] at exceeds
    cases exceeds
  unfold Context.check
  split
  next free =>
    refine .calm (calm ?_)
    intro l limited
    cases free.symm.trans limited
  next l limited =>
    split
    next exceeded =>
      have nothing : Journal.IsCalm c.config [] := Journal.isCalm_of_silent rfl rfl
      have ended : Heeds c.config (_ : Run Unit) := .refused nothing limited visit exceeded
      simp only [reject_located]
      exact ended
    next permitted =>
      refine .calm (calm ?_)
      intro l' limited'
      cases limited.symm.trans limited'
      exact Bool.not_eq_true _ ▸ permitted

end Run

def Congruence.heeding (config : Config) : Congruence where
  contexts c _ := config = c.config
  rejections _ _ := True
  runs r _ := r.Heeds config
  push := id
  pure := Run.heeds_of_silent rfl rfl
  bind := Run.Heeds.bind
  rescue first rest := first.rescue fun m => rest m m trivial
  settle _ := Run.heeds_of_silent rfl rfl
  rejected _ _ := Run.heeds_log _ _
  arrive := by
    rintro c _ rfl
    exact Run.heeds_visit rfl
  count := by
    rintro c _ size rfl
    exact Run.heeds_visit rfl

theorem Decoder.runAt_heeds (d : Decoder) (defs : Definitions) (fuel : Nat) (v : Value)
    (c : Context) : (d.runAt defs fuel v c).Heeds c.config := by
  have raise {β : Type} (m : Fault) : (Run.raise m : Run β).Heeds c.config :=
    Run.heeds_of_silent rfl rfl
  refine (Congruence.heeding c.config).runAt_of_forall (Run.heeds_of_silent rfl rfl)
    (fun _ => raise _) ?_ fuel d v c c rfl
  intro fuel d v c' c'' related body
  apply (Congruence.heeding c.config).entering
  · exact Run.heeds_of_silent rfl rfl
  · exact body ⟨fun _ _ => raise _,
      fun f _ w => Run.heeds_of_silent (f.visits_call w) (f.records_call w),
      fun _ => Run.heeds_of_silent rfl rfl⟩

def Journal.Skips (defs : Definitions) (options : List Decoder) (c : Context) (v : Value)
    (j : Journal) (record : Record) : Prop :=
  ∃ option ∈ options, ∃ fuel m earlier,
    (option.runAt defs fuel v c).outcome = .error (.fault m) ∧ m.isMismatch = true ∧
      record = c.config.rejection option.name m ∧
      earlier ++ (option.runAt defs fuel v c).journal ++ [.logged record] <+: j

/-- The whole run of an ordered choice under the configuration stands in the journal, and
gives the record of an option that it goes on from. -/
def Journal.Rejects (defs : Definitions) (config : Config) (j : Journal) (record : Record) : Prop :=
  ∃ options fuel v c, c.config = config ∧
    ((Decoder.alt options).runAt defs fuel v c).journal <:+: j ∧
      ((Decoder.alt options).runAt defs fuel v c).journal.Skips defs options c v record

theorem Journal.Rejects.mono {defs : Definitions} {config : Config} {j j' : Journal}
    {record : Record} (rejects : j.Rejects defs config record) (part : j <:+: j') :
    j'.Rejects defs config record := by
  obtain ⟨options, fuel, v, c, same, inside, skips⟩ := rejects
  exact ⟨options, fuel, v, c, same, inside.trans part, skips⟩

theorem Journal.Rejects.exists_entered {defs : Definitions} {config : Config} {j : Journal}
    {record : Record} (rejects : j.Rejects defs config record) :
    ∃ options c v, .entered (.alt options) c v ∈ j := by
  obtain ⟨options, fuel, v, c, _, inside, _⟩ := rejects
  refine ⟨options, c, v, inside.subset ?_⟩
  rw [Decoder.runAt, Decoder.action_eq_run]
  exact List.mem_cons_self

theorem Journal.Rejects.exists_eq {defs : Definitions} {config : Config} {j : Journal}
    {record : Record} (rejects : j.Rejects defs config record) :
    ∃ name m, record = config.rejection name m := by
  obtain ⟨_, _, _, _, rfl, _, option, _, _, m, _, _, _, worded, _⟩ := rejects
  exact ⟨option.name, m, worded⟩

namespace Run

def Accounts (defs : Definitions) (config : Config) (r : Run α) : Prop :=
  ∀ record ∈ r.journal.records, record.level = .debug → r.journal.Rejects defs config record

variable {defs : Definitions} {config : Config}

theorem accounts_of_silent {r : Run α} (silent : r.journal.records = []) :
    r.Accounts defs config := by simp [Accounts, silent]

theorem Accounts.bind {r : Run α} {f : α → Run β} (first : r.Accounts defs config)
    (rest : ∀ a, (f a).Accounts defs config) : (r.bind f).Accounts defs config := by
  obtain ⟨journal, outcome⟩ := r
  cases outcome with
  | error stop => exact first
  | ok a =>
    intro record member debug
    rw [bind_ok] at member ⊢
    rw [Journal.records_append] at member
    rcases List.mem_append.mp member with member | member
    · exact (first record member debug).mono (List.prefix_append _ _).isInfix
    · exact (rest a record member debug).mono (List.suffix_append _ _).isInfix

theorem accounts_check (c : Context) (aspect : Aspect) (n : Int) :
    (c.check aspect n).Accounts defs config := by
  intro record member debug
  unfold Context.check at member
  split at member
  · cases member
  · split at member
    · cases List.mem_singleton.mp member
      cases debug
    · cases member

end Run

/-- Accounting for records, as an invariant of runs under one configuration. An ordered
choice is left out, since what it records refers to its entry. -/
def Sequencing.accounting (defs : Definitions) (config : Config) : Sequencing where
  contexts c _ := config = c.config
  runs r _ := r.Accounts defs config
  push := id
  pure := Run.accounts_of_silent rfl
  bind := Run.Accounts.bind
  arrive _ := (Run.accounts_of_silent rfl).bind fun _ => Run.accounts_check _ _ _
  count _ := (Run.accounts_of_silent rfl).bind fun _ => Run.accounts_check _ _ _

namespace Decoder

variable {defs : Definitions} {fuel : Nat} {c : Context} {v : Value}

/-- A choice records the options that it goes on from; the other records are those of the
options. -/
theorem alt_accounts {options : List Decoder}
    (accounts : ∀ e ∈ options, (e.runAt defs fuel v c).Accounts defs c.config) :
    ((alt options).runAt defs fuel v c).Accounts defs c.config := by
  obtain ⟨rejected, closing, chooses⟩ := Run.exists_chooses (fun e => e.runAt defs fuel v c)
    (.raise (.mismatch (.text unexpectedData) c)) options
  have chosen := runAt_alt_of_chooses chooses
  intro record member debug
  rw [chosen] at member
  rw [Journal.records_entered, Journal.records_append, Journal.records_flatMap] at member
  rcases List.mem_append.mp member with earlier | last
  · obtain ⟨⟨option, m⟩, among, here⟩ := List.mem_flatMap.mp earlier
    obtain ⟨failed, mismatch⟩ := chooses.are _ among
    have inside : option ∈ options := chooses.mem among
    obtain ⟨before, after, rfl⟩ := List.append_of_mem among
    let left (x : Decoder × Fault) : Journal :=
      (x.1.runAt defs fuel v c).journal ++ [.logged (c.config.rejection x.1.name x.2)]
    have whole : .entered (.alt options) c v :: before.flatMap left ++
        (option.runAt defs fuel v c).journal ++ [.logged (c.config.rejection option.name m)] <+:
          ((alt options).runAt defs fuel v c).journal := by
      rw [chosen, List.flatMap_append, List.flatMap_cons]
      exact ⟨after.flatMap left ++ closing.journal, by simp [left]⟩
    rw [Journal.records_append, Journal.records_logged] at here
    rcases List.mem_append.mp here with own | rejected
    · refine (accounts option inside record own debug).mono ?_
      exact (List.infix_append _ _ _).trans whole.isInfix
    · cases List.mem_singleton.mp rejected
      exact ⟨options, fuel, v, c, rfl, List.infix_rfl, option, inside, fuel, m, _, failed, mismatch,
        rfl, whole⟩
  · cases chooses with
    | @chosen rejected option later _ _ =>
      have inside : option ∈ rejected.map Prod.fst ++ option :: later := by simp
      refine (accounts option inside record last debug).mono ?_
      rw [chosen]
      exact ((List.suffix_append _ _).trans (List.suffix_cons _ _)).isInfix
    | failed _ => cases last
    | nothing => cases last

theorem runAt_accounts (d : Decoder) (defs : Definitions) (fuel : Nat) (v : Value) (c : Context) :
    (d.runAt defs fuel v c).Accounts defs c.config := by
  refine runAt_induction (P := fun a => ∀ v c, (a v c).Accounts defs c.config) ?_ ?_ ?_
    defs.everywhere_true fuel d.everywhere_true v c
  · exact fun _ _ => Run.accounts_of_silent rfl
  · exact fun _ _ _ _ _ => Run.accounts_of_silent rfl
  · intro fuel references d _ parts v c
    let K := Sequencing.accounting defs c.config
    have related : K.contexts c c := rfl
    have acts {a : Action} (accounts : ∀ v c, (a v c).Accounts defs c.config) : K.actions a a := by
      intro v c' _ same
      have there := accounts v c'
      rwa [← same] at there
    have covers : K.Covers d v c c :=
      ⟨fun _ _ => Run.accounts_of_silent rfl,
        fun f _ w => Run.accounts_of_silent (f.records_call w),
        fun _ => Run.accounts_of_silent rfl⟩
    by_cases choice : ∃ options, d = .alt options
    · obtain ⟨options, rfl⟩ := choice
      exact alt_accounts fun e member => parts e member v c
    · have body : (d.body (defs.resolve fuel) v c).Accounts defs c.config :=
        K.body (fun name _ => acts (references name trivial))
          (fun e member => acts (parts e member))
          (fun options same => absurd ⟨options, same⟩ choice) related covers
      rw [runAt, action_eq_entering]
      exact (Run.accounts_of_silent rfl : (Run.emit _).Accounts defs c.config).bind fun _ => body

theorem Calls.everywhere {condition : Decoder → Prop} {d e : Decoder} {w : Value}
    {fragment : List Value} (calls : d.Calls defs v fragment e w)
    (within : defs.Everywhere condition) (everywhere : d.Everywhere condition) :
    e.Everywhere condition := by
  obtain ⟨_, parts⟩ := everywhere
  rcases calls.cases with ⟨member, _⟩ | ⟨member, _⟩ | ⟨member, _⟩ | ⟨name, rfl, found, _⟩
  · exact parts e member
  · exact parts e member
  · exact parts e member
  · exact Definitions.everywhere_of_lookup within found

theorem Reaches.everywhere {condition : Decoder → Prop} {d e : Decoder} {w : Value}
    {path : List Value} (reaches : d.Reaches defs v path e w)
    (within : defs.Everywhere condition) (everywhere : d.Everywhere condition) :
    e.Everywhere condition := by
  induction reaches with
  | here => exact everywhere
  | step calls _ ih => exact ih (calls.everywhere within everywhere)

/-- Only decoders of which the condition holds are entered where it holds everywhere. -/
theorem condition_of_entered {condition : Decoder → Prop} {d e : Decoder} {c' : Context} {w : Value}
    (within : defs.Everywhere condition) (everywhere : d.Everywhere condition)
    (entered : .entered e c' w ∈ (d.runAt defs fuel v c).journal) : condition e := by
  obtain ⟨_, reaches, _⟩ := (runAt_leaves d defs fuel c [] v).reaches entered
  obtain ⟨here, _⟩ := reaches.everywhere within everywhere
  exact here

def isChoice : Decoder → Bool
  | .alt _ => true
  | _ => false

end Decoder

namespace Run

variable {defs : Definitions} {config : Config}

/-- The log of a whole run agrees with its outcome. -/
structure Reports (defs : Definitions) (config : Config) (r : Run α) : Prop where
  warned : (∃ record ∈ r.journal.records, record.level = .warning) ↔ r.journal.Exceeds config
  /-- The first visit over a limit ends the run, and only its fault and two records follow. -/
  refused : r.journal.Exceeds config → ∃ before e x l, Journal.IsCalm config before ∧
    config.limits = some l ∧ e.visit? = some x ∧ x.exceeds l = true ∧
    r.outcome = .error (.fault (x.fault l)) ∧
    r.journal = before ++ [e, .logged (config.warning (x.fault l)), .raised (x.fault l),
      .logged (config.announcement (x.fault l))]
  announced : ∀ m, r.outcome = .error (.fault m) → m.isLocated = true →
    ∃ before, r.journal = before ++ [.logged (config.announcement m)] ∧
      ∀ record ∈ Journal.records before, ¬record.Announces
  silent : (∀ m, r.outcome = .error (.fault m) → m.isLocated = false) →
    ∀ record ∈ r.journal.records, ¬record.Announces
  accounted : ∀ record ∈ r.journal.records,
    record.level = .warning ∨ record.Announces ∨ r.journal.Rejects defs config record

theorem Heeds.exists_refused {r : Run α} (heeds : r.Heeds config)
    (exceeds : r.journal.Exceeds config) : ∃ before e x l, Journal.IsCalm config before ∧
      config.limits = some l ∧ e.visit? = some x ∧ x.exceeds l = true ∧
      r = ⟨before ++ [e, .logged (config.warning (x.fault l)), .raised (x.fault l)],
        .error (.fault (x.fault l))⟩ := by
  cases heeds with
  | calm calm => exact absurd exceeds calm.within
  | refused calm limited visit excess => exact ⟨_, _, _, _, calm, limited, visit, excess, rfl⟩

theorem Heeds.eq_warning {r : Run α} (heeds : r.Heeds config) {record : Record}
    (member : record ∈ r.journal.records) (level : record.level = .warning) :
    r.journal.Exceeds config ∧ ∃ m, record = config.warning m := by
  cases heeds with
  | calm calm =>
    rw [calm.debug record member] at level
    cases level
  | @refused before e x l calm limited visit excess =>
    constructor
    · refine ⟨l, limited, x, ?_, excess⟩
      exact List.mem_filterMap.mpr ⟨e, by simp, visit⟩
    · have split (rest : Journal) : Journal.records (e :: rest) = Journal.records rest := by
        rw [← List.singleton_append, Journal.records_append, Event.records_of_visit visit,
          List.nil_append]
      rw [Journal.records_append, split] at member
      rcases List.mem_append.mp member with earlier | last
      · rw [calm.debug record earlier] at level
        cases level
      · exact ⟨x.fault l, List.mem_singleton.mp last⟩

theorem mem_records_announced {r : Run α} {record : Record}
    (member : record ∈ (r.announced (config.loggerFor .engine)).journal.records) :
    record ∈ r.journal.records ∨ ∃ m, record = config.announcement m := by
  unfold announced at member
  split at member
  next m _ =>
    split at member
    · rw [Journal.records_append] at member
      refine (List.mem_append.mp member).imp_right ?_
      exact fun last => ⟨m, List.mem_singleton.mp last⟩
    · exact .inl member
  next => exact .inl member

theorem exceeds_announced (logger : Logger) (r : Run α) :
    (r.announced logger).journal.Exceeds config ↔ r.journal.Exceeds config := by
  rw [Journal.Exceeds, visits_announced, Journal.Exceeds]

/-- Before the whole run is over nothing is announced. -/
theorem Heeds.not_announces {r : Run α} (heeds : r.Heeds config) (accounts : r.Accounts defs config)
    {record : Record} (member : record ∈ r.journal.records) : ¬record.Announces := by
  cases level : record.level with
  | debug =>
    obtain ⟨name, m, rfl⟩ := (accounts record member level).exists_eq
    exact Record.not_announces_rejection config name m
  | warning =>
    obtain ⟨_, m, rfl⟩ := heeds.eq_warning member level
    exact Record.not_announces_warning config m

/-- A run that heeds limits and accounts for its records, its failure announced, reports. -/
theorem Heeds.reports {r : Run α} (heeds : r.Heeds config) (accounts : r.Accounts defs config) :
    (r.announced (config.loggerFor .engine)).Reports defs config where
  warned := by
    rw [exceeds_announced]
    constructor
    · rintro ⟨record, member, level⟩
      rcases mem_records_announced member with inside | ⟨m, rfl⟩
      · exact (heeds.eq_warning inside level).1
      · cases level
    · intro exceeds
      obtain ⟨before, e, x, l, _, _, _, _, rfl⟩ := heeds.exists_refused exceeds
      refine ⟨config.warning (x.fault l), List.mem_filterMap.mpr ⟨.logged _, ?_, rfl⟩, rfl⟩
      rw [announced_of_located _ _ rfl]
      simp
  refused := by
    intro exceeds
    rw [exceeds_announced] at exceeds
    obtain ⟨before, e, x, l, calm, limited, visit, excess, rfl⟩ := heeds.exists_refused exceeds
    refine ⟨before, e, x, l, calm, limited, visit, excess, ?_⟩
    rw [announced_of_located _ _ rfl, List.append_assoc]
    exact ⟨rfl, rfl⟩
  announced := by
    intro m ended located
    rw [outcome_announced] at ended
    have quiet : ∀ record ∈ r.journal.records, ¬record.Announces :=
      fun _ => heeds.not_announces accounts
    obtain ⟨journal, outcome⟩ := r
    cases ended
    rw [announced_of_located _ _ located]
    exact ⟨journal, rfl, quiet⟩
  silent := by
    intro unlocated record member
    rw [outcome_announced] at unlocated
    rw [announced_of_unlocated _ unlocated] at member
    exact heeds.not_announces accounts member
  accounted := by
    intro record member
    rcases mem_records_announced member with inside | ⟨m, rfl⟩
    · cases level : record.level with
      | warning => exact .inl rfl
      | debug =>
        obtain ⟨closing, whole⟩ := journal_announced (config.loggerFor .engine) r
        refine .inr (.inr ((accounts record inside level).mono ?_))
        rw [whole]
        exact (List.prefix_append _ _).isInfix
    · exact .inr (.inl ⟨m.message, rfl⟩)

/-- Where no ordered choice is entered, a run that gives a value logs nothing. -/
theorem Reports.records_eq_nil {r : Run α} (reports : r.Reports defs config)
    (unentered : ∀ options c v, .entered (.alt options) c v ∉ r.journal)
    (given : r.outcome = .ok a) : r.journal.records = [] := by
  refine List.eq_nil_iff_forall_not_mem.mpr ?_
  intro record member
  rcases reports.accounted record member with level | announces | rejects
  · have exceeds := reports.warned.mp ⟨record, member, level⟩
    obtain ⟨_, _, _, _, _, _, _, _, failed, _⟩ := reports.refused exceeds
    cases given.symm.trans failed
  · refine reports.silent ?_ record member announces
    intro m failed
    cases given.symm.trans failed
  · obtain ⟨options, c, v, entered⟩ := rejects.exists_entered
    exact unentered options c v entered

end Run

theorem Decoder.run_reports (d : Decoder) (defs : Definitions) (fuel : Nat) (config : Config)
    (v : Value) : (d.run defs fuel config v).Reports defs config :=
  (d.runAt_heeds defs fuel v (.root config)).reports (d.runAt_accounts defs fuel v (.root config))

theorem Decoder.records_run_eq_nil {d : Decoder} {defs : Definitions} {fuel : Nat}
    {config : Config} {v w : Value} (everywhere : d.Everywhere fun e => !e.isChoice)
    (within : defs.Everywhere fun e => !e.isChoice)
    (given : (d.run defs fuel config v).outcome = .ok w) :
    (d.run defs fuel config v).journal.records = [] := by
  have ended : (d.runAt defs fuel v (.root config)).outcome = .ok w := by
    rwa [run, Run.outcome_announced] at given
  have same : d.run defs fuel config v = d.runAt defs fuel v (.root config) := by
    apply Run.announced_of_unlocated
    intro m failed
    cases ended.symm.trans failed
  refine (d.run_reports defs fuel config v).records_eq_nil ?_ given
  intro options c x entered
  rw [same] at entered
  cases condition_of_entered within everywhere entered

/-- Whatever is run, its log and its outcome agree; without an ordered choice success
leaves no record. -/
theorem Candidate.log_agrees_with_outcome (p : Candidate) (defs : Definitions) (fuel : Nat)
    (config : Config) (v : Value) :
    (p.run defs fuel config v).Reports defs config ∧
      ∀ d w, p.toDecoder = .ok d → (d.Everywhere fun e => !e.isChoice) →
        (defs.Everywhere fun e => !e.isChoice) → (p.run defs fuel config v).outcome = .ok w →
          (p.run defs fuel config v).journal.records = [] := by
  unfold run
  cases p.toDecoder with
  | error fault =>
    have heeds : (Run.raise (.unbuilt fault) : Run Value).Heeds config :=
      Run.heeds_of_silent rfl rfl
    exact ⟨heeds.reports (Run.accounts_of_silent rfl), nofun⟩
  | ok d =>
    refine ⟨d.run_reports defs fuel config v, ?_⟩
    rintro d' w same everywhere within given
    cases same
    exact d.records_run_eq_nil everywhere within given

/-- One option is rejected, and in the next a limit is exceeded; without limits that option,
on its own, leaves no record. -/
theorem Candidate.log_agrees_with_outcome_nested :
    let nested : Decoder := .array (.array (.primitive .unknown))
    let choice : Candidate := .decoder (.alt [.array (.primitive .number), nested])
    let config : Config := ⟨some ⟨.whole 1, .whole 2⟩, none⟩
    let v : Value := .list [.list [.int 1]]
    (∃ before m, (choice.run [] 0 config v).journal =
        before ++ [.logged (config.warning m), .raised m, .logged (config.announcement m)]) ∧
      (∃ record, (choice.run [] 0 config v).journal.Rejects [] config record) ∧
      ((Candidate.decoder nested).run [] 0 .default v).outcome = .ok v ∧
      ((Candidate.decoder nested).run [] 0 .default v).journal.records = [] := by
  intro nested choice config v
  have reports := (log_agrees_with_outcome choice [] 0 config v).1
  have given : ((Candidate.decoder nested).run [] 0 .default v).outcome = .ok v := rfl
  refine ⟨?_, ?_, given, ?_⟩
  · have exceeds : (choice.run [] 0 config v).journal.Exceeds config := ⟨_, rfl, by decide⟩
    obtain ⟨before, e, x, l, _, _, _, _, _, journal⟩ := reports.refused exceeds
    exact ⟨before ++ [e], x.fault l, by rw [journal]; simp⟩
  · have first : (choice.run [] 0 config v).journal.records[0]? =
        some (config.rejection (Decoder.array (.primitive .number)).name _) := rfl
    rcases reports.accounted _ (List.mem_of_getElem? first) with level | announces | rejects
    · cases level
    · exact absurd announces (Record.not_announces_rejection _ _ _)
    · exact ⟨_, rejects⟩
  · have plain : nested.Everywhere fun e => !e.isChoice := by decide
    have nothing : Definitions.Everywhere (fun e => !e.isChoice) [] := by decide
    exact (log_agrees_with_outcome (.decoder nested) [] 0 .default v).2 nested v rfl plain nothing
      given

end Intake
