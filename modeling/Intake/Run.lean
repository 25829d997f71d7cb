import Intake.Journal

/-!
Runs: a journal together with an outcome. Sequencing stops at the first run that does not end in a
value; running out of fuel is an outcome that nothing recovers from.
-/
namespace Intake

inductive Stop where
  | fault (f : Fault)
  | exhausted

structure Run (α : Type) where
  journal : Journal
  outcome : Except Stop α

namespace Run

def pure (a : α) : Run α := ⟨[], .ok a⟩

def bind (r : Run α) (f : α → Run β) : Run β :=
  match r.outcome with
  | .ok a =>
    let next := f a
    ⟨r.journal ++ next.journal, next.outcome⟩
  | .error stop => ⟨r.journal, .error stop⟩

instance : Monad Run where
  pure := Run.pure
  bind := Run.bind

@[simp] theorem pure_bind (a : α) (f : α → Run β) : (Run.pure a).bind f = f a := by
  simp [Run.pure, Run.bind]

@[simp] theorem bind_pure (r : Run α) : r.bind Run.pure = r := by
  obtain ⟨journal, outcome⟩ := r
  cases outcome <;> simp [Run.pure, Run.bind]

theorem bind_assoc (r : Run α) (f : α → Run β) (g : β → Run γ) :
    (r.bind f).bind g = r.bind fun a => (f a).bind g := by
  obtain ⟨journal, outcome⟩ := r
  cases outcome with
  | error stop => rfl
  | ok a =>
    simp only [Run.bind]
    cases (f a).outcome <;> simp

theorem bind_error (journal : Journal) (stop : Stop) (f : α → Run β) :
    Run.bind ⟨journal, .error stop⟩ f = ⟨journal, .error stop⟩ := rfl

theorem bind_ok (journal : Journal) (a : α) (f : α → Run β) :
    Run.bind ⟨journal, .ok a⟩ f = ⟨journal ++ (f a).journal, (f a).outcome⟩ := rfl

instance : LawfulMonad Run := .mk' Run bind_pure pure_bind bind_assoc

def emit (e : Event) : Run Unit := ⟨[e], .ok ()⟩

def raise (f : Fault) : Run α := ⟨[.raised f], .error (.fault f)⟩

/-- A fault that arose before is the outcome. -/
def settle (f : Fault) : Run α := ⟨[], .error (.fault f)⟩

def exhausted : Run α := ⟨[], .error .exhausted⟩

/-- Hands a mismatch over to another run. Every other ending stays. -/
def rescue (r : Run α) (handler : Fault → Run α) : Run α :=
  match r.outcome with
  | .error (.fault fault) =>
    if fault.isMismatch then Run.bind ⟨r.journal, .ok ()⟩ fun _ => handler fault else r
  | _ => r

/-- The run does not end in a mismatch, so that no other run takes over. -/
def IsFirm (r : Run α) : Prop := ∀ m, r.outcome = .error (.fault m) → m.isMismatch = false

theorem exists_mismatch_of_not_isFirm {r : Run α} (soft : ¬r.IsFirm) :
    ∃ m, r.outcome = .error (.fault m) ∧ m.isMismatch = true := by
  simpa [IsFirm] using soft

theorem isFirm_pure (a : α) : (Run.pure a).IsFirm := nofun

theorem isFirm_ok (journal : Journal) (a : α) : IsFirm ⟨journal, .ok a⟩ := nofun

theorem isFirm_emit (e : Event) : (emit e).IsFirm := nofun

theorem IsFirm.bind {r : Run α} {f : α → Run β} (first : r.IsFirm) (rest : ∀ a, (f a).IsFirm) :
    (r.bind f).IsFirm := by
  obtain ⟨journal, outcome⟩ := r
  intro m ended
  cases outcome with
  | error stop =>
    cases ended
    exact first m rfl
  | ok a => exact rest a m ended

theorem rescue_of_firm {r : Run α} (firm : r.IsFirm) (handler : Fault → Run α) :
    r.rescue handler = r := by
  unfold rescue
  split
  next fault ended => simp [firm fault ended]
  next => rfl

theorem rescue_of_mismatch (journal : Journal) {m : Fault} (mismatch : m.isMismatch = true)
    (handler : Fault → Run α) :
    rescue ⟨journal, .error (.fault m)⟩ handler = Run.bind ⟨journal, .ok ()⟩ fun _ => handler m := by
  simp [rescue, mismatch]

theorem rescue_congr {r : Run α} {handler handler' : Fault → Run α}
    (same : ∀ m, m.isMismatch = true → handler m = handler' m) :
    r.rescue handler = r.rescue handler' := by
  unfold rescue
  split
  next m _ =>
    split
    next mismatch => rw [same m mismatch]
    next => rfl
  next => rfl

/-- Either no other run takes over, or one does on a mismatch, after what happened before. -/
theorem rescue_cases (r : Run α) (handler : Fault → Run α) :
    r.rescue handler = r ∨ ∃ m, r.outcome = .error (.fault m) ∧ m.isMismatch = true ∧
      r.rescue handler = Run.bind ⟨r.journal, .ok ()⟩ fun _ => handler m := by
  by_cases firm : r.IsFirm
  · exact .inl (rescue_of_firm firm handler)
  · obtain ⟨m, failed, mismatch⟩ := exists_mismatch_of_not_isFirm firm
    obtain ⟨journal, outcome⟩ := r
    cases failed
    exact .inr ⟨m, rfl, mismatch, rescue_of_mismatch journal mismatch handler⟩

/-- What holds of a run, and of those that take over from it on a mismatch, holds of its rescue. -/
theorem rescue_induction {motive : Run α → Prop} {r : Run α} {handler : Fault → Run α}
    (kept : motive r) (taken : ∀ m, r.outcome = .error (.fault m) → m.isMismatch = true →
      motive (Run.bind ⟨r.journal, .ok ()⟩ fun _ => handler m)) : motive (r.rescue handler) := by
  rcases r.rescue_cases handler with same | ⟨m, failed, mismatch, next⟩
  · rwa [same]
  · rw [next]
    exact taken m failed mismatch

/-- Recovery leaves alone what came before a firm part. -/
theorem rescue_bind {r : Run α} (firm : r.IsFirm) (f : α → Run β) (handler : Fault → Run β) :
    (r.bind f).rescue handler = r.bind fun a => (f a).rescue handler := by
  obtain ⟨journal, outcome⟩ := r
  cases outcome with
  | error stop =>
    apply rescue_of_firm
    intro m ended
    cases ended
    exact firm m rfl
  | ok a =>
    simp only [rescue, bind_ok]
    split
    next m ended => split <;> simp [List.append_assoc, ended]
    next => rfl

theorem rescue_rescue (r : Run α) (handler handler' : Fault → Run α) :
    (r.rescue handler).rescue handler' = r.rescue fun m => (handler m).rescue handler' := by
  by_cases firm : r.IsFirm
  · rw [rescue_of_firm firm, rescue_of_firm firm, rescue_of_firm firm]
  · obtain ⟨m, failed, mismatch⟩ := exists_mismatch_of_not_isFirm firm
    obtain ⟨journal, outcome⟩ := r
    cases failed
    rw [rescue_of_mismatch journal mismatch, rescue_of_mismatch journal mismatch]
    exact rescue_bind (isFirm_ok journal ()) _ _

/-- Logs the located fault that a run ends in, if it does. -/
def announced (logger : Logger) (r : Run α) : Run α :=
  match r.outcome with
  | .error (.fault fault) =>
    if fault.isLocated then
      ⟨r.journal ++ [.logged ⟨.debug, logger, "Parse failed: " ++ fault.message⟩], r.outcome⟩
    else r
  | _ => r

def log (level : Level) (logger : Logger) (message : String) : Run Unit :=
  emit (.logged ⟨level, logger, message⟩)

@[simp] theorem outcome_announced (logger : Logger) (r : Run α) :
    (r.announced logger).outcome = r.outcome := by
  unfold announced
  repeat' split
  all_goals rfl

theorem announced_of_located (logger : Logger) (journal : Journal) {f : Fault}
    (located : f.isLocated = true) :
    announced logger (⟨journal, .error (.fault f)⟩ : Run α) =
      ⟨journal ++ [.logged ⟨.debug, logger, "Parse failed: " ++ f.message⟩], .error (.fault f)⟩ := by
  simp [announced, located]

theorem announced_of_unlocated (logger : Logger) {r : Run α}
    (unlocated : ∀ f, r.outcome = .error (.fault f) → f.isLocated = false) :
    r.announced logger = r := by
  unfold announced
  split
  next f ended => simp [unlocated f ended]
  next => rfl

theorem journal_announced (logger : Logger) (r : Run α) :
    ∃ closing, (r.announced logger).journal = r.journal ++ closing := by
  unfold announced
  split
  · split
    · exact ⟨_, rfl⟩
    · exact ⟨[], (List.append_nil _).symm⟩
  · exact ⟨[], (List.append_nil _).symm⟩

def traverseFrom (f : α → Run β) (journal : Journal) (done : List β) : List α → Run (List β)
  | [] => ⟨journal.reverse, .ok done.reverse⟩
  | a :: rest =>
    let r := f a
    let journal := r.journal.reverseAux journal
    match r.outcome with
    | .ok b => traverseFrom f journal (b :: done) rest
    | .error stop => ⟨journal.reverse, .error stop⟩

def traverse (f : α → Run β) (elements : List α) : Run (List β) := traverseFrom f [] [] elements

/-- What was gathered before comes first, whatever follows. -/
theorem traverseFrom_eq (f : α → Run β) (journal : Journal) (done : List β) (elements : List α) :
    traverseFrom f journal done elements =
      ⟨journal.reverse ++ (traverse f elements).journal,
        (traverse f elements).outcome.map (done.reverse ++ ·)⟩ := by
  induction elements generalizing journal done with
  | nil => simp [traverse, traverseFrom, Except.map]
  | cons a rest ih =>
    cases h : (f a).outcome with
    | error stop => simp [traverse, traverseFrom, h, Except.map]
    | ok b =>
      simp only [traverse, traverseFrom, h]
      rw [ih, ih _ [b]]
      cases (traverse f rest).outcome <;> simp [Except.map]

@[simp] theorem traverse_nil (f : α → Run β) : traverse f [] = Run.pure [] := rfl

theorem traverse_cons (f : α → Run β) (a : α) (rest : List α) :
    traverse f (a :: rest) =
      (f a).bind fun b => (traverse f rest).bind fun bs => Run.pure (b :: bs) := by
  cases h : (f a).outcome with
  | error stop => simp [traverse, traverseFrom, Run.bind, h]
  | ok b =>
    simp only [traverse, traverseFrom, Run.bind, h]
    rw [traverseFrom_eq]
    cases h' : (traverse f rest).outcome <;> simp_all [traverse, Except.map, Run.pure]

end Run

def Callback.call (f : Callback) (v : Value) : Run Value :=
  let (calls, result) := f.apply v
  let journal := Event.invoked v :: calls.map Event.called
  match result with
  | .ok w => ⟨journal, .ok w⟩
  | .error fault => ⟨journal ++ [.raised fault], .error (.fault fault)⟩

end Intake
