import Intake.Proofs.Observation

/-! Ordered choice between runs. `Run.Chooses` says what trying them in order comes to, so what
holds of the alternatives of a decoder is one case analysis of how the choice closes. -/
namespace Intake

def Config.rejection (config : Config) (name : String) (m : Fault) : Record :=
  ⟨.debug, config.loggerFor .alternatives, Action.rejection name m⟩

namespace Run

variable {ι : Type}

/-- Tries the runs in order, and notes on the way which of them ended in which mismatch. -/
def choose (run : ι → Run α) (note : ι → Fault → Journal) (nothing : Run α) :
    Option Fault → List ι → Run α
  | none, [] => nothing
  | some m, [] => settle m
  | _, i :: rest => (run i).rescue fun m =>
    Run.bind ⟨note i m, .ok ()⟩ fun _ => choose run note nothing (some m) rest

def AreRejected (run : ι → Run α) (rejected : List (ι × Fault)) : Prop :=
  ∀ x ∈ rejected, (run x.1).outcome = .error (.fault x.2) ∧ x.2.isMismatch = true

/-- What the choice between runs closes with, after those that are rejected: the first that is
not, the mismatch of the last, or another run if there is none to choose. -/
inductive Chooses (run : ι → Run α) (nothing : Run α) :
    List ι → List (ι × Fault) → Run α → Prop where
  | chosen : AreRejected run rejected → (run i).IsFirm →
      Chooses run nothing (rejected.map Prod.fst ++ i :: rest) rejected (run i)
  | failed : AreRejected run (rejected ++ [(i, m)]) →
      Chooses run nothing ((rejected ++ [(i, m)]).map Prod.fst) (rejected ++ [(i, m)]) (settle m)
  | nothing : Chooses run nothing [] [] nothing

variable {run : ι → Run α} {nothing closing : Run α} {items : List ι}
  {rejected : List (ι × Fault)}

theorem AreRejected.not_isFirm (are : AreRejected run rejected) {x : ι × Fault}
    (member : x ∈ rejected) : ¬(run x.1).IsFirm := by
  obtain ⟨failed, mismatch⟩ := are x member
  intro firm
  rw [firm x.2 failed] at mismatch
  cases mismatch

theorem Chooses.are (chooses : Chooses run nothing items rejected closing) :
    AreRejected run rejected := by
  cases chooses with
  | chosen are _ => exact are
  | failed are => exact are
  | nothing => exact List.forall_mem_nil _

theorem Chooses.mem (chooses : Chooses run nothing items rejected closing) {x : ι × Fault}
    (member : x ∈ rejected) : x.1 ∈ items := by
  cases chooses with
  | chosen _ _ => exact List.mem_append_left _ (List.mem_map_of_mem member)
  | failed _ => exact List.mem_map_of_mem member
  | nothing => cases member

theorem Chooses.isFirm (chooses : Chooses run nothing items rejected closing) {i : ι}
    (member : i ∈ items) (firm : (run i).IsFirm) : closing.IsFirm := by
  cases chooses with
  | chosen _ settled => exact settled
  | failed are =>
    obtain ⟨x, among, rfl⟩ := List.mem_map.mp member
    exact absurd firm (are.not_isFirm among)
  | nothing => cases member

theorem exists_chooses (run : ι → Run α) (nothing : Run α) (items : List ι) :
    ∃ rejected closing, Chooses run nothing items rejected closing := by
  induction items with
  | nil => exact ⟨[], nothing, .nothing⟩
  | cons i rest ih =>
    by_cases firm : (run i).IsFirm
    · exact ⟨[], run i, .chosen (List.forall_mem_nil _) firm⟩
    · obtain ⟨m, failed, mismatch⟩ := exists_mismatch_of_not_isFirm firm
      obtain ⟨rejected, closing, later⟩ := ih
      cases later with
      | @chosen rejected j later are next =>
        have all : AreRejected run ((i, m) :: rejected) :=
          List.forall_mem_cons.mpr ⟨⟨failed, mismatch⟩, are⟩
        exact ⟨_, _, .chosen all next⟩
      | @failed rejected j n are =>
        have all : AreRejected run (((i, m) :: rejected) ++ [(j, n)]) :=
          List.forall_mem_cons.mpr ⟨⟨failed, mismatch⟩, are⟩
        exact ⟨_, _, .failed all⟩
      | nothing =>
        have all : AreRejected run ([] ++ [(i, m)]) :=
          List.forall_mem_singleton.mpr ⟨failed, mismatch⟩
        exact ⟨_, _, .failed all⟩

/-- Those that are rejected come first, and the last of their mismatches goes on. -/
theorem choose_of_rejected (note : ι → Fault → Journal) (are : AreRejected run rejected)
    (last : Option Fault) (rest : List ι) :
    choose run note nothing last (rejected.map Prod.fst ++ rest) =
      Run.bind ⟨rejected.flatMap fun x => (run x.1).journal ++ note x.1 x.2, .ok ()⟩ fun _ =>
        choose run note nothing (rejected.foldl (fun _ x => some x.2) last) rest := by
  induction rejected generalizing last with
  | nil => rfl
  | cons x rejected ih =>
    obtain ⟨⟨failed, mismatch⟩, are⟩ := List.forall_mem_cons.mp are
    have ended : run x.1 = ⟨(run x.1).journal, .error (.fault x.2)⟩ := by rw [← failed]
    rw [List.map_cons, List.cons_append, choose, ended, rescue_of_mismatch _ mismatch, ih are]
    simp only [bind_ok, List.flatMap_cons, List.foldl_cons, List.append_assoc]

theorem Chooses.choose_eq (chooses : Chooses run nothing items rejected closing)
    (note : ι → Fault → Journal) : choose run note nothing none items =
      ⟨(rejected.flatMap fun x => (run x.1).journal ++ note x.1 x.2) ++ closing.journal,
        closing.outcome⟩ := by
  cases chooses with
  | chosen are firm =>
    rw [choose_of_rejected note are, choose, rescue_of_firm firm]
    rfl
  | failed are =>
    have tried : choose run note nothing none _ = _ := choose_of_rejected note are none []
    rw [List.append_nil, List.foldl_append] at tried
    exact tried
  | nothing => rfl

/-- Who is rejected and who closes is seen by every observer. -/
theorem Chooses.seen (see : Event → Option Event)
    (chooses : Chooses run nothing items rejected closing) :
    Chooses (fun i => (run i).seen see) (nothing.seen see) items rejected (closing.seen see) := by
  cases chooses with
  | chosen are firm => exact .chosen are firm
  | failed are => exact .failed are
  | nothing => exact .nothing

theorem seen_choose (see : Event → Option Event) (note : ι → Fault → Journal)
    (last : Option Fault) (items : List ι) :
    (choose run note nothing last items).seen see =
      choose (fun i => (run i).seen see) (fun i m => (note i m).filterMap see) (nothing.seen see)
        last items := by
  induction items generalizing last with
  | nil => cases last <;> rfl
  | cons i rest ih =>
    rw [choose, choose, seen_rescue]
    refine congrArg _ (funext fun m => ?_)
    rw [seen_bind]
    exact congrArg _ (funext fun _ => ih (some m))

/-- A choice among the first items that gives up leaves the others to choose from. -/
theorem choose_some_append (note : ι → Fault → Journal) {m : Fault} (mismatch : m.isMismatch = true)
    (group rest : List ι) :
    choose run note nothing (some m) (group ++ rest) =
      (choose run note nothing (some m) group).rescue fun m =>
        choose run note nothing (some m) rest := by
  induction group generalizing m with
  | nil =>
    rw [choose, settle, rescue_of_mismatch [] mismatch]
    rfl
  | cons i group ih =>
    rw [List.cons_append, choose, choose, rescue_rescue]
    refine rescue_congr fun n next => ?_
    rw [rescue_bind (isFirm_ok _ _)]
    exact congrArg _ (funext fun _ => ih next)

theorem choose_append (note : ι → Fault → Journal) (last : Option Fault) {group : List ι}
    (inhabited : group ≠ []) (rest : List ι) :
    choose run note nothing last (group ++ rest) =
      (choose run note nothing none group).rescue fun m =>
        choose run note nothing (some m) rest := by
  obtain ⟨i, group, rfl⟩ := List.exists_cons_of_ne_nil inhabited
  rw [List.cons_append, choose, choose, rescue_rescue]
  refine rescue_congr fun n next => ?_
  rw [rescue_bind (isFirm_ok _ _)]
  exact congrArg _ (funext fun _ => choose_some_append note next group rest)

theorem choose_map {κ : Type} (f : κ → ι) (note : ι → Fault → Journal) (last : Option Fault)
    (items : List κ) : choose run note nothing last (items.map f) =
      choose (fun k => run (f k)) (fun k => note (f k)) nothing last items := by
  induction items generalizing last with
  | nil => cases last <;> rfl
  | cons k rest ih =>
    rw [List.map_cons, choose, choose]
    exact congrArg _ (funext fun m => congrArg _ (funext fun _ => ih (some m)))

/-- The choice among all items is a choice between groups of them. -/
theorem choose_flatten (note : ι → Fault → Journal) (last : Option Fault) {groups : List (List ι)}
    (inhabited : ∀ group ∈ groups, group ≠ []) :
    choose run note nothing last groups.flatten =
      choose (choose run note nothing none) (fun _ _ => []) nothing last groups := by
  induction groups generalizing last with
  | nil => cases last <;> rfl
  | cons group groups ih =>
    obtain ⟨first, others⟩ := List.forall_mem_cons.mp inhabited
    rw [List.flatten_cons, choose_append note last first, choose]
    exact congrArg _ (funext fun m => ih (some m) others)

end Run

namespace Action

variable {a : Decoder → Action} {v : Value} {c : Context}

theorem alternatives_eq_choose (last : Option Fault) (options : List Decoder) :
    alternatives last (options.map fun d => (d.name, a d)) v c =
      Run.choose (fun d => a d v c) (fun d m => [.logged (c.config.rejection d.name m)])
        (.raise (.mismatch (.text unexpectedData) c)) last options := by
  induction options generalizing last with
  | nil => cases last <;> rfl
  | cons d rest ih =>
    rw [List.map_cons, alternatives_cons, Run.choose]
    exact congrArg _ (funext fun m => congrArg _ (funext fun _ => ih (some m)))

/-- An ordered choice is what those that are rejected leave, and then what closes it. -/
theorem exists_alt_eq (options : List Decoder) : ∃ rejected closing,
    Run.Chooses (fun d => a d v c) (.raise (.mismatch (.text unexpectedData) c)) options rejected
      closing ∧
    alt (options.map fun d => (d.name, a d)) v c =
      ⟨(rejected.flatMap fun x => (a x.1 v c).journal ++
        [.logged (c.config.rejection x.1.name x.2)]) ++ closing.journal, closing.outcome⟩ := by
  obtain ⟨rejected, closing, chooses⟩ := Run.exists_chooses (fun d => a d v c)
    (.raise (.mismatch (.text unexpectedData) c)) options
  refine ⟨rejected, closing, chooses, ?_⟩
  exact (alternatives_eq_choose none options).trans (chooses.choose_eq _)

end Action

namespace Decoder

variable {defs : Definitions} {fuel : Nat} {v : Value} {c : Context}

theorem runAt_alt (options : List Decoder) :
    (alt options).runAt defs fuel v c = (Run.emit (.entered (.alt options) c v)).bind fun _ =>
      Run.choose (fun option => option.runAt defs fuel v c)
        (fun option m => [.logged (c.config.rejection option.name m)])
        (.raise (.mismatch (.text unexpectedData) c)) none options := by
  rw [← Action.alternatives_eq_choose]
  exact congrFun (congrFun (action_eq_entering _ _) v) c

theorem runAt_alt_of_chooses {options : List Decoder} {rejected : List (Decoder × Fault)}
    {closing : Run Value} (chooses : Run.Chooses (fun option => option.runAt defs fuel v c)
      (.raise (.mismatch (.text unexpectedData) c)) options rejected closing) :
    (alt options).runAt defs fuel v c = ⟨.entered (.alt options) c v ::
      ((rejected.flatMap fun x => (x.1.runAt defs fuel v c).journal ++
        [.logged (c.config.rejection x.1.name x.2)]) ++ closing.journal), closing.outcome⟩ := by
  rw [runAt_alt, chooses.choose_eq]
  rfl

end Decoder

end Intake
