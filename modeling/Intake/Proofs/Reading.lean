/-! Texts that can be read back. Something is readable when its text, with whatever may follow
it, is the text of nothing else; lists of what is readable are readable. -/
namespace Intake.Text

theorem intercalate_cons (sep : List Char) (item : List Char) (items : List (List Char)) :
    sep.intercalate (item :: items) = item ++ items.flatMap (sep ++ ·) := by
  induction items generalizing item with
  | nil => simp
  | cons next items ih =>
    rw [List.intercalate_cons_cons, ih, List.flatMap_cons, List.append_assoc, List.append_assoc]

theorem intercalate_ne_nil {sep : List Char} {items : List (List Char)} (inhabited : items ≠ [])
    (written : ∀ item ∈ items, item ≠ []) : sep.intercalate items ≠ [] := by
  obtain ⟨item, rest, rfl⟩ := List.exists_cons_of_ne_nil inhabited
  rw [intercalate_cons]
  exact List.append_ne_nil_of_left_ne_nil (written item List.mem_cons_self) _

theorem intercalate_append (sep : List Char) {before after : List (List Char)}
    (inhabited : before ≠ []) (inhabited' : after ≠ []) :
    sep.intercalate (before ++ after) =
      sep.intercalate before ++ (sep ++ sep.intercalate after) := by
  obtain ⟨item, before, rfl⟩ := List.exists_cons_of_ne_nil inhabited
  obtain ⟨next, after, rfl⟩ := List.exists_cons_of_ne_nil inhabited'
  simp only [List.cons_append, intercalate_cons, List.flatMap_append, List.flatMap_cons,
    List.append_assoc]

/-- Lists written one after the other are written as one list. -/
theorem intercalate_flatMap (sep : List Char) {f : α → List (List Char)} {items : List α}
    (inhabited : ∀ item ∈ items, f item ≠ []) :
    sep.intercalate (items.flatMap f) =
      sep.intercalate (items.map fun a => sep.intercalate (f a)) := by
  induction items with
  | nil => rfl
  | cons item rest ih =>
    obtain ⟨first, others⟩ := List.forall_mem_cons.mp inhabited
    cases rest with
    | nil => simp
    | cons next rest =>
      have later : (next :: rest).flatMap f ≠ [] := by
        rw [List.flatMap_cons]
        exact List.append_ne_nil_of_left_ne_nil (others next List.mem_cons_self) _
      rw [List.flatMap_cons, intercalate_append sep first later, ih others]
      simp only [List.map_cons, List.intercalate_cons_cons, List.append_assoc]

/-- What comes next in a text: nothing, or something that begins with one of the characters. -/
def Follows (next rest : List Char) : Prop := ∀ c ∈ rest.head?, c ∈ next

/-- From the text of `a` and what follows it, `a` can be told among all that is `ok`. -/
def Readable (write : α → List Char) (ok : α → Prop) (next : List Char) (a : α) : Prop :=
  ∀ b rest rest', ok b → Follows next rest → Follows next rest' →
    write a ++ rest = write b ++ rest' → a = b ∧ rest = rest'

variable {next next' : List Char} {write : α → List Char} {ok : α → Prop} {a : α}

theorem follows_nil : Follows next [] := by
  intro c begins
  cases begins

theorem follows_cons {c : Char} (rest : List Char) (member : c ∈ next) :
    Follows next (c :: rest) := by
  rintro d begins
  cases begins
  exact member

theorem Follows.mono (subset : next ⊆ next') {rest : List Char} (follows : Follows next rest) :
    Follows next' rest := fun c begins => subset (follows c begins)

theorem Readable.mono (subset : next ⊆ next') (readable : Readable write ok next' a) :
    Readable write ok next a :=
  fun b rest rest' is follows follows' =>
    readable b rest rest' is (follows.mono subset) (follows'.mono subset)

/-- Of two equal texts the longest stretches with a property are equal. -/
theorem append_inj_of_head {p : Char → Bool} {cs cs' rest rest' : List Char}
    (all : ∀ c ∈ cs, p c = true) (all' : ∀ c ∈ cs', p c = true)
    (stop : ∀ c ∈ rest.head?, p c = false) (stop' : ∀ c ∈ rest'.head?, p c = false)
    (same : cs ++ rest = cs' ++ rest') : cs = cs' ∧ rest = rest' := by
  induction cs generalizing cs' with
  | nil =>
    cases cs' with
    | nil => exact ⟨rfl, same⟩
    | cons c cs' =>
      have stops := stop c (by rw [List.nil_append] at same; rw [same]; rfl)
      cases stops.symm.trans (all' c List.mem_cons_self)
  | cons c cs ih =>
    cases cs' with
    | nil =>
      have stops := stop' c (by rw [List.nil_append] at same; rw [← same]; rfl)
      cases stops.symm.trans (all c List.mem_cons_self)
    | cons d cs' =>
      obtain ⟨rfl, later⟩ := List.cons.inj same
      have inside := (List.forall_mem_cons.mp all).2
      obtain ⟨rfl, rests⟩ := ih inside (List.forall_mem_cons.mp all').2 later
      exact ⟨rfl, rests⟩

section List

variable {c : Char} {sep : List Char} {items others : List α} {rest rest' : List Char}

def further (write : α → List Char) (c : Char) (sep : List Char) (items : List α) : List Char :=
  items.flatMap fun a => c :: (sep ++ write a)

theorem follows_further (follows : Follows next rest) :
    Follows (c :: next) (further write c sep items ++ rest) := by
  cases items with
  | nil => exact follows.mono (List.subset_cons_self c next)
  | cons a items => exact follows_cons _ List.mem_cons_self

theorem readable_further (fresh : c ∉ next)
    (each : ∀ a ∈ items, Readable write ok (c :: next) a) :
    Readable (further write c sep) (fun others => ∀ b ∈ others, ok b) next items := by
  induction items with
  | nil =>
    intro others rest rest' _ follows _ same
    cases others with
    | nil => exact ⟨rfl, same⟩
    | cons b others => exact absurd (follows c (by rw [show rest = _ from same]; rfl)) fresh
  | cons a items ih =>
    intro others rest rest' are follows follows' same
    cases others with
    | nil => exact absurd (follows' c (by rw [show rest' = _ from same.symm]; rfl)) fresh
    | cons b others =>
      obtain ⟨first, others_are⟩ := List.forall_mem_cons.mp are
      obtain ⟨readable, each⟩ := List.forall_mem_cons.mp each
      have same : write a ++ (further write c sep items ++ rest) =
          write b ++ (further write c sep others ++ rest') := by
        simpa [further] using same
      obtain ⟨rfl, remaining⟩ :=
        readable b _ _ first (follows_further follows) (follows_further follows') same
      obtain ⟨rfl, rfl⟩ := ih each others rest rest' others_are follows follows' remaining
      exact ⟨rfl, rfl⟩

theorem intercalate_map_cons (a : α) (items : List α) :
    (c :: sep).intercalate ((a :: items).map write) = write a ++ further write c sep items := by
  rw [List.map_cons, intercalate_cons, List.flatMap_map]
  rfl

/-- A list with separators is read item by item. -/
theorem readable_intercalate (sep : List Char) (fresh : c ∉ next)
    (begins : ∀ a, ok a → ∃ d later, write a = d :: later ∧ d ∉ next)
    (each : ∀ a ∈ items, ok a ∧ Readable write ok (c :: next) a) :
    Readable (fun items => (c :: sep).intercalate (items.map write))
      (fun others => ∀ b ∈ others, ok b) next items := by
  have nothing {a : α} (is : ok a) {items : List α} {rest rest' : List Char}
      (follows : Follows next rest') :
      (c :: sep).intercalate ((a :: items).map write) ++ rest ≠ rest' := by
    obtain ⟨d, later, written, other⟩ := begins a is
    rintro rfl
    rw [intercalate_map_cons, written] at follows
    exact other (follows d rfl)
  intro others rest rest' are follows follows' same
  match items, others with
  | [], [] => exact ⟨rfl, same⟩
  | [], b :: others => exact absurd same.symm (nothing (are b List.mem_cons_self) follows)
  | a :: items, [] => exact absurd same (nothing (each a List.mem_cons_self).1 follows')
  | a :: items, b :: others =>
    obtain ⟨⟨_, readable⟩, each⟩ := List.forall_mem_cons.mp each
    obtain ⟨first, others_are⟩ := List.forall_mem_cons.mp are
    simp only [intercalate_map_cons, List.append_assoc] at same
    obtain ⟨rfl, remaining⟩ :=
      readable b _ _ first (follows_further follows) (follows_further follows') same
    have later : ∀ a ∈ items, Readable write ok (c :: next) a := fun a member => (each a member).2
    obtain ⟨rfl, rfl⟩ :=
      readable_further fresh later others rest rest' others_are follows follows' remaining
    exact ⟨rfl, rfl⟩

end List

end Intake.Text
