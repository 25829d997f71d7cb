import Intake.Action

/-! What stands in the journals of the runs that actions are made of. Only a decoder
enters: every other action that makes no decoder run leaves no entry. -/
namespace Intake

namespace Run

theorem mem_journal_bind {r : Run α} {f : α → Run β} {e : Event}
    (member : e ∈ (r.bind f).journal) : e ∈ r.journal ∨ ∃ a, e ∈ (f a).journal := by
  obtain ⟨journal, outcome⟩ := r
  cases outcome with
  | error stop => exact .inl member
  | ok a => exact (List.mem_append.mp member).imp_right fun later => ⟨a, later⟩

theorem mem_journal_rescue {r : Run α} {handler : Fault → Run α} {e : Event}
    (member : e ∈ (r.rescue handler).journal) :
    e ∈ r.journal ∨ ∃ m, e ∈ (handler m).journal := by
  rcases r.rescue_cases handler with same | ⟨m, _, _, taken⟩
  · rw [same] at member
    exact .inl member
  · rw [taken] at member
    exact (List.mem_append.mp member).imp_right fun later => ⟨m, later⟩

theorem mem_journal_traverse {f : α → Run β} {elements : List α} {e : Event}
    (member : e ∈ (traverse f elements).journal) : ∃ a ∈ elements, e ∈ (f a).journal := by
  induction elements with
  | nil => cases member
  | cons a rest ih =>
    rw [traverse_cons] at member
    rcases mem_journal_bind member with first | ⟨_, later⟩
    · exact ⟨a, List.mem_cons_self, first⟩
    · rcases mem_journal_bind later with later | ⟨_, nothing⟩
      · obtain ⟨b, inside, member⟩ := ih later
        exact ⟨b, List.mem_cons_of_mem a inside, member⟩
      · cases nothing

theorem mem_journal_announced {r : Run α} {logger : Logger} {e : Event}
    (member : e ∈ (r.announced logger).journal) : e ∈ r.journal ∨ ∃ record, e = .logged record := by
  unfold announced at member
  split at member
  · split at member
    · exact (List.mem_append.mp member).imp_right fun last => ⟨_, List.mem_singleton.mp last⟩
    · exact .inl member
  · exact .inl member

end Run

theorem Callback.mem_journal_call {f : Callback} {v : Value} {e : Event}
    (member : e ∈ (f.call v).journal) :
    e = .invoked v ∨ (∃ call, e = .called call) ∨ ∃ fault, e = .raised fault := by
  unfold call at member
  generalize f.apply v = applied at member
  obtain ⟨calls, result⟩ := applied
  have begun : e ∈ Event.invoked v :: calls.map Event.called →
      e = .invoked v ∨ ∃ call, e = .called call := by
    intro member
    rcases List.mem_cons.mp member with rfl | member
    · exact .inl rfl
    · obtain ⟨call, _, rfl⟩ := List.mem_map.mp member
      exact .inr ⟨call, rfl⟩
  cases result with
  | ok w =>
    rcases begun member with first | called
    · exact .inl first
    · exact .inr (.inl called)
  | error fault =>
    rcases List.mem_append.mp member with member | last
    · rcases begun member with first | called
      · exact .inl first
      · exact .inr (.inl called)
    · exact .inr (.inr ⟨fault, List.mem_singleton.mp last⟩)

/-- A fault that arises while a callback runs is the callback's own. -/
theorem Callback.apply_of_raised {f : Callback} {v : Value} {m : Fault}
    (member : .raised m ∈ (f.call v).journal) : (f.apply v).2 = .error m := by
  unfold call at member
  generalize f.apply v = applied at member
  obtain ⟨calls, result⟩ := applied
  have silent : .raised m ∉ Event.invoked v :: calls.map Event.called := by simp
  cases result with
  | ok w => exact absurd member silent
  | error fault =>
    rcases List.mem_append.mp member with begun | last
    · exact absurd begun silent
    · cases List.mem_singleton.mp last
      rfl

theorem Context.check_of_free {c : Context} (free : c.config.limits = none) (aspect : Aspect)
    (n : Int) : c.check aspect n = Run.pure () := by
  simp only [check, free]
  rfl

theorem Context.mem_journal_check {c : Context} {aspect : Aspect} {n : Int} {e : Event}
    (member : e ∈ (c.check aspect n).journal) :
    (∃ record, e = .logged record) ∨ ∃ f, e = .raised f := by
  unfold check at member
  split at member
  · cases member
  · split at member
    · rcases List.mem_cons.mp member with rfl | member
      · exact .inl ⟨_, rfl⟩
      · exact .inr ⟨_, List.mem_singleton.mp member⟩
    · cases member

/-- Where an arrival gets through the depth is within the limit. -/
theorem Context.within_of_arrive {c : Context} {l : Limits} (limited : c.config.limits = some l)
    (arrived : c.arrive.outcome = .ok ()) : l.isExceeded .depth (.whole c.depth) = false := by
  have checked : (c.check .depth c.depth).outcome = .ok () := arrived
  cases exceeded : l.isExceeded .depth (.whole c.depth) with
  | false => rfl
  | true =>
    simp only [check, limited, if_pos exceeded] at checked
    cases checked

theorem Context.not_entered_arrive {c : Context} :
    .entered d c' w ∉ c.arrive.journal := by
  intro member
  rcases List.mem_cons.mp member with same | member
  · cases same
  · rcases mem_journal_check member with ⟨_, same⟩ | ⟨_, same⟩ <;> cases same

theorem Context.not_entered_count {c : Context} {size : Nat} :
    .entered d c' w ∉ (c.count size).journal := by
  intro member
  rcases List.mem_cons.mp member with same | member
  · cases same
  · rcases mem_journal_check member with ⟨_, same⟩ | ⟨_, same⟩ <;> cases same

namespace Action

theorem entered_of_field {entries : List (Value × Value)} {c : Context} {f : Value × Action}
    (member : .entered d c' w ∈ (field entries c f).journal) :
    .entered d c' w ∈
      (f.2 (Value.lookup f.1 entries) (c.push (.text (fieldFragment f.1)))).journal := by
  rw [field_eq] at member
  rcases Run.mem_journal_bind member with first | ⟨_, member⟩
  · exact absurd first Context.not_entered_arrive
  · rcases Run.mem_journal_bind member with inside | ⟨_, nothing⟩
    · exact inside
    · cases nothing

theorem entered_of_item {act : Action} {c : Context} {element : Value × Nat}
    (member : .entered d c' w ∈ (item act c element).journal) :
    .entered d c' w ∈ (act element.1 (c.push (.text (itemFragment element.2)))).journal := by
  rw [item_eq] at member
  rcases Run.mem_journal_bind member with first | ⟨_, inside⟩
  · exact absurd first Context.not_entered_arrive
  · exact inside

theorem entered_of_alternatives {last : Option Fault} {options : List (String × Action)}
    {v : Value} {c : Context}
    (member : .entered d c' w ∈ (alternatives last options v c).journal) :
    ∃ option ∈ options, .entered d c' w ∈ (option.2 v c).journal := by
  induction options generalizing last with
  | nil => cases last <;> simp [alternatives, Run.settle, Run.raise] at member
  | cons option rest ih =>
    obtain ⟨name, act⟩ := option
    rcases Run.mem_journal_rescue member with first | ⟨m, later⟩
    · exact ⟨(name, act), List.mem_cons_self, first⟩
    · rcases Run.mem_journal_bind later with rejected | ⟨_, later⟩
      · cases List.mem_singleton.mp rejected
      · obtain ⟨option, inside, member⟩ := ih later
        exact ⟨option, List.mem_cons_of_mem _ inside, member⟩

end Action

end Intake
