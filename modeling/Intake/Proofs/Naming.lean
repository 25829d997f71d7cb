import Intake.Proofs.Flattening

/-! Names read back. Legible decoders have one name just when they are the same once they are
flattened: a word tells the combinator, and what follows the text of a decoder that it is over.
-/
namespace Intake

namespace Decoder

open Text

/-- What the name of a decoder begins with, where it shows how the decoder is made. -/
inductive Keyword where
  | primitive (p : Primitive)
  | object
  | array
  | optional
  | nullable
  | alt
  deriving DecidableEq

namespace Keyword

def spelled : Keyword → String
  | primitive p => p.name
  | object => "object"
  | array => "array"
  | optional => "optional"
  | nullable => "nullable"
  | alt => "alt"

def all : List Keyword :=
  [.primitive .string, .primitive .number, .primitive .boolean, .primitive .dateTime,
    .primitive .identity, .primitive .unknown, .primitive .record, .primitive .url, .object,
    .array, .optional, .nullable, .alt]

theorem mem_all (k : Keyword) : k ∈ all := by
  cases k with
  | primitive p => cases p <;> decide
  | _ => decide

theorem eq_of_spelled {k k' : Keyword} (same : k.spelled = k'.spelled) : k = k' := by
  have distinct : ∀ k ∈ all, ∀ k' ∈ all, k.spelled = k'.spelled → k = k' := by decide +kernel
  exact distinct k k.mem_all k' k'.mem_all same

def isWordChar (c : Char) : Bool := c.isAlpha || c == '_'

theorem isWordChar_of_mem (k : Keyword) {c : Char} (member : c ∈ k.spelled.toList) :
    isWordChar c = true := by
  have letters : ∀ k ∈ all, k.spelled.toList.all isWordChar = true := by decide +kernel
  exact List.all_eq_true.mp (letters k k.mem_all) c member

theorem exists_spelled (k : Keyword) : ∃ c later, k.spelled.toList = c :: later := by
  have filled : ∀ k ∈ all, k.spelled.toList ≠ [] := by decide +kernel
  exact List.exists_cons_of_ne_nil (filled k k.mem_all)

end Keyword

def keyword? : Decoder → Option Keyword
  | .primitive p => some (.primitive p)
  | .object _ => some .object
  | .array _ => some .array
  | .optional _ => some .optional
  | .nullable _ => some .nullable
  | .alt _ => some .alt
  | _ => none

/-- A field name that ends where the colon after it stands, and is no brace. -/
def isLegibleKey : Value → Bool
  | .text s => s.toList.all fun c => c != ':' && c != '\x7d'
  | _ => false

/-- The name shows how the decoder is made of its parts. -/
def isLegible : Decoder → Bool
  | .primitive _ | .array _ | .optional _ | .nullable _ | .alt _ | .compose _ _ => true
  | .object fields => fields.all fun field => isLegibleKey field.1
  | _ => false

inductive Stage : Decoder → Prop where
  | primitive : Stage (.primitive p)
  | object {fields : List (Value × List Decoder)} :
      (∀ field ∈ fields, isLegibleKey field.1 = true) → (∀ field ∈ fields, field.2 ≠ []) →
      (∀ field ∈ fields, ∀ d ∈ field.2, Stage d) →
      Stage (.object (fields.map fun field => (field.1, sequence field.2)))
  | array : steps ≠ [] → (∀ d ∈ steps, Stage d) → Stage (.array (sequence steps))
  | optional : steps ≠ [] → (∀ d ∈ steps, Stage d) → Stage (.optional (sequence steps))
  | nullable : steps ≠ [] → (∀ d ∈ steps, Stage d) → Stage (.nullable (sequence steps))
  | alt {options : List (List Decoder)} : (∀ steps ∈ options, steps ≠ []) →
      (∀ steps ∈ options, ∀ d ∈ steps, Stage d) → Stage (.alt (options.map sequence))

def Flat (d : Decoder) : Prop :=
  ∃ steps, steps ≠ [] ∧ (∀ stage ∈ steps, Stage stage) ∧ d = sequence steps

theorem stage_of_mem_stages {d : Decoder} (legible : d.Everywhere fun e => e.isLegible)
    {stage : Decoder} (member : stage ∈ d.stages) : Stage stage := by
  induction legible generalizing stage with
  | @node d here _ ih =>
    cases d with
    | compose first rest =>
      rw [stages_compose] at member
      obtain ⟨e, part, inside⟩ := List.mem_flatMap.mp member
      exact ih e part inside
    | primitive p =>
      simp only [stages, List.mem_singleton] at member
      exact member ▸ .primitive
    | object fields =>
      rw [stages_object, List.mem_singleton] at member
      subst member
      have keys : ∀ field ∈ fields, isLegibleKey field.1 = true := List.all_eq_true.mp here
      have whole := @Stage.object (fields.map fun field => (field.1, field.2.stages))
        (List.forall_mem_map.mpr keys) (List.forall_mem_map.mpr fun field _ => stages_ne_nil _)
        (List.forall_mem_map.mpr fun field inside e => ih field.2 (List.mem_map_of_mem inside))
      rwa [List.map_map] at whole
    | array of =>
      cases List.mem_singleton.mp member
      exact .array of.stages_ne_nil fun e => ih of (List.mem_singleton_self _)
    | optional of =>
      cases List.mem_singleton.mp member
      exact .optional of.stages_ne_nil fun e => ih of (List.mem_singleton_self _)
    | nullable of =>
      cases List.mem_singleton.mp member
      exact .nullable of.stages_ne_nil fun e => ih of (List.mem_singleton_self _)
    | alt options =>
      rw [stages_alt, List.mem_singleton] at member
      subst member
      have whole := @Stage.alt (options.map stages)
        (List.forall_mem_map.mpr fun e _ => stages_ne_nil _)
        (List.forall_mem_map.mpr fun e inside stage => ih e inside)
      rwa [List.map_map] at whole
    | _ => cases here

theorem flat_flattened {d : Decoder} (legible : d.Everywhere fun e => e.isLegible) :
    Flat d.flattened := ⟨d.stages, d.stages_ne_nil, fun _ => stage_of_mem_stages legible, rfl⟩

section Names

variable {d e : Decoder} {rest rest' : List Char}

/-- What may stand after a decoder in a name: the end of what it stands in, or another. -/
def closers : List Char := [')', '\x7d', ',']

theorem not_isWordChar {c : Char} (member : c ∈ '(' :: ' ' :: closers) :
    Keyword.isWordChar c = false := by
  have outside : ('(' :: ' ' :: closers).all (fun c => !Keyword.isWordChar c) = true := by decide
  simpa using List.all_eq_true.mp outside c member

theorem text_primitive (p : Primitive) : (primitive p).text = p.name.toList :=
  text_of_name_ne_empty (by cases p <;> decide)

/-- The text of a stage is a keyword, perhaps with something in brackets. -/
theorem Stage.exists_text (stage : Stage d) : ∃ k more, d.keyword? = some k ∧
    d.text = k.spelled.toList ++ more ∧ Follows ['('] more := by
  have bracket (more : List Char) : Follows ['('] ('(' :: more) := follows_cons _ (by decide)
  cases stage with
  | @primitive p =>
    refine ⟨.primitive p, [], rfl, ?_, follows_nil⟩
    rw [text_primitive, List.append_nil]
    rfl
  | object => exact ⟨.object, _, rfl, text_object _, bracket _⟩
  | array => exact ⟨.array, _, rfl, text_array _, bracket _⟩
  | optional => exact ⟨.optional, _, rfl, text_optional _, bracket _⟩
  | nullable => exact ⟨.nullable, _, rfl, text_nullable _, bracket _⟩
  | alt => exact ⟨.alt, _, rfl, text_alt _, bracket _⟩

theorem Stage.keyword_eq (stage : Stage d) (stage' : Stage e)
    (follows : Follows (' ' :: closers) rest) (follows' : Follows (' ' :: closers) rest')
    (same : d.text ++ rest = e.text ++ rest') : d.keyword? = e.keyword? := by
  have stop {more rest : List Char} (bracket : Follows ['('] more)
      (follows : Follows (' ' :: closers) rest) :
      ∀ c ∈ (more ++ rest).head?, Keyword.isWordChar c = false := by
    intro c begins
    cases more with
    | nil => exact not_isWordChar (List.mem_cons_of_mem _ (follows c begins))
    | cons d more => exact not_isWordChar (List.mem_append_left (' ' :: closers) (bracket c begins))
  obtain ⟨k, more, keyword, written, bracket⟩ := stage.exists_text
  obtain ⟨k', more', keyword', written', bracket'⟩ := stage'.exists_text
  rw [written, written', List.append_assoc, List.append_assoc] at same
  have spelled := (append_inj_of_head (fun c => k.isWordChar_of_mem) (fun c => k'.isWordChar_of_mem)
    (stop bracket follows) (stop bracket' follows') same).1
  rw [keyword, keyword', Keyword.eq_of_spelled (String.toList_inj.mp spelled)]

/-- The text of a stage does not begin like what may stand after another. -/
theorem Stage.begins (stage : Stage d) : ∃ c later, d.text = c :: later ∧ c ∉ closers := by
  obtain ⟨k, more, _, written, _⟩ := stage.exists_text
  obtain ⟨c, later, spelled⟩ := k.exists_spelled
  have letter : Keyword.isWordChar c = true :=
    k.isWordChar_of_mem (by rw [spelled]; exact List.mem_cons_self)
  refine ⟨c, later ++ more, by rw [written, spelled, List.cons_append], fun closes => ?_⟩
  have outside := not_isWordChar (List.mem_cons_of_mem _ (List.mem_cons_of_mem _ closes))
  cases outside.symm.trans letter

theorem Flat.begins (flat : Flat d) : ∃ c later, d.text = c :: later ∧ c ∉ closers := by
  obtain ⟨steps, inhabited, are, rfl⟩ := flat
  obtain ⟨first, others, rfl⟩ := List.exists_cons_of_ne_nil inhabited
  obtain ⟨c, later, written, other⟩ := (are first List.mem_cons_self).begins
  rw [text_sequence inhabited, List.map_cons, intercalate_cons, written]
  exact ⟨c, _, rfl, other⟩

/-- A flat decoder is read stage by stage. -/
theorem readable_sequence {steps : List Decoder} (inhabited : steps ≠ [])
    (each : ∀ d ∈ steps, Stage d ∧ Readable text Stage (' ' :: closers) d) :
    Readable text Flat closers (sequence steps) := by
  rintro _ rest rest' ⟨others, inhabited', are, rfl⟩ follows follows' same
  rw [text_sequence inhabited, text_sequence inhabited'] at same
  obtain ⟨rfl, rfl⟩ := readable_intercalate ['>', '>', ' '] (by decide)
    (fun _ is => is.begins) each others rest rest' are follows follows' same
  exact ⟨rfl, rfl⟩

/-- Whatever a combinator has in brackets, it can be read if that can. -/
theorem readable_bracketed {β : Type} {make : β → Decoder} {write : β → List Char} {ok : β → Prop}
    {next : List Char} {b : β} {word : String}
    (written : ∀ b, (make b).text = bracketed word (write b)) (stage : Stage (make b))
    (closes : ')' ∈ next) (readable : Readable write ok next b)
    (alike : ∀ e, Stage e → (make b).keyword? = e.keyword? → ∃ b', ok b' ∧ e = make b') :
    Readable text Stage (' ' :: closers) (make b) := by
  intro e rest rest' stage' follows follows' same
  obtain ⟨b', is, rfl⟩ := alike e stage' (stage.keyword_eq stage' follows follows' same)
  rw [written, written] at same
  have inside : write b ++ ')' :: rest = write b' ++ ')' :: rest' := by
    simpa [bracketed] using same
  obtain ⟨rfl, later⟩ := readable b' _ _ is (follows_cons rest closes) (follows_cons rest' closes)
    inside
  exact ⟨rfl, (List.cons.inj later).2⟩

theorem readable_options {options : List (List Decoder)}
    (inhabited : ∀ steps ∈ options, steps ≠ [])
    (each : ∀ steps ∈ options, ∀ d ∈ steps, Stage d ∧ Readable text Stage (' ' :: closers) d) :
    Readable optionsText (fun others => ∀ d ∈ others, Flat d) [')'] (options.map sequence) := by
  have ends : [',', ')'] ⊆ closers := by decide
  have begins (d : Decoder) (flat : Flat d) : ∃ c later, d.text = c :: later ∧ c ∉ [')'] := by
    obtain ⟨c, later, written, other⟩ := flat.begins
    exact ⟨c, later, written, fun closes => other (ends (List.mem_cons_of_mem _ closes))⟩
  refine readable_intercalate [' '] (by decide) begins (List.forall_mem_map.mpr ?_)
  intro steps member
  have flat : Flat (sequence steps) :=
    ⟨steps, inhabited steps member, fun d inside => (each steps member d inside).1, rfl⟩
  exact ⟨flat, (readable_sequence (inhabited steps member) (each steps member)).mono ends⟩

def IsField (field : Value × Decoder) : Prop := isLegibleKey field.1 = true ∧ Flat field.2

theorem exists_of_isLegibleKey {key : Value} (legible : isLegibleKey key = true) :
    ∃ s, key = .text s ∧ ∀ c ∈ s.toList, c ≠ ':' ∧ c ≠ '\x7d' := by
  cases key with
  | text s =>
    refine ⟨s, rfl, fun c member => ?_⟩
    simpa using List.all_eq_true.mp legible c member
  | _ => cases legible

theorem IsField.begins {field : Value × Decoder} (is : IsField field) :
    ∃ c later, fieldText field = c :: later ∧ c ∉ ['\x7d'] := by
  obtain ⟨key, d⟩ := field
  obtain ⟨s, rfl, plain⟩ := exists_of_isLegibleKey is.1
  have written : fieldText (.text s, d) = s.toList ++ ':' :: ' ' :: d.text := rfl
  rw [written]
  cases chars : s.toList with
  | nil => exact ⟨':', _, rfl, by decide⟩
  | cons c later =>
    refine ⟨c, _, rfl, fun brace => ?_⟩
    exact (plain c (chars ▸ List.mem_cons_self)).2 (List.mem_singleton.mp brace)

theorem readable_field {key : Value} (legible : isLegibleKey key = true)
    (readable : Readable text Flat closers d) :
    Readable fieldText IsField [',', '\x7d'] (key, d) := by
  rintro ⟨key', e⟩ rest rest' ⟨legible', flat⟩ follows follows' same
  obtain ⟨s, rfl, plain⟩ := exists_of_isLegibleKey legible
  obtain ⟨s', rfl, plain'⟩ := exists_of_isLegibleKey legible'
  have split : s.toList ++ ':' :: ' ' :: (d.text ++ rest) =
      s'.toList ++ ':' :: ' ' :: (e.text ++ rest') := by
    simpa [fieldText, Value.display] using same
  obtain ⟨keys, later⟩ := append_inj_of_head (p := fun c => c != ':')
    (fun c member => by simpa using (plain c member).1)
    (fun c member => by simpa using (plain' c member).1) (by simp) (by simp) split
  have ends : [',', '\x7d'] ⊆ closers := by decide
  have inside : d.text ++ rest = e.text ++ rest' := by simpa using later
  obtain ⟨rfl, rfl⟩ := readable.mono ends e rest rest' flat follows follows' inside
  rw [String.toList_inj.mp keys]
  exact ⟨rfl, rfl⟩

theorem readable_fields {fields : List (Value × List Decoder)}
    (keys : ∀ field ∈ fields, isLegibleKey field.1 = true)
    (inhabited : ∀ field ∈ fields, field.2 ≠ [])
    (each : ∀ field ∈ fields, ∀ d ∈ field.2, Stage d ∧ Readable text Stage (' ' :: closers) d) :
    Readable fieldsText (fun others => ∀ field ∈ others, IsField field) [')']
      (fields.map fun field => (field.1, sequence field.2)) := by
  have listed : ∀ field ∈ fields.map fun field => (field.1, sequence field.2), IsField field ∧
      Readable fieldText IsField [',', '\x7d'] field := by
    refine List.forall_mem_map.mpr fun field member => ?_
    have flat : Flat (sequence field.2) :=
      ⟨field.2, inhabited field member, fun d inside => (each field member d inside).1, rfl⟩
    exact ⟨⟨keys field member, flat⟩, readable_field (keys field member)
      (readable_sequence (inhabited field member) (each field member))⟩
  intro others rest rest' are _ _ same
  have inside : comma.intercalate ((fields.map fun field =>
        (field.1, sequence field.2)).map fieldText) ++ '\x7d' :: rest =
      comma.intercalate (others.map fieldText) ++ '\x7d' :: rest' := by
    simpa only [fieldsText, List.cons_append, List.append_assoc, List.nil_append, List.cons.injEq,
      true_and] using same
  have closes (rest : List Char) : Follows ['\x7d'] ('\x7d' :: rest) :=
    follows_cons rest (by decide)
  obtain ⟨all, later⟩ := readable_intercalate [' '] (by decide) (fun _ is => is.begins) listed
    others _ _ are (closes rest) (closes rest') inside
  exact ⟨all, (List.cons.inj later).2⟩

theorem Stage.readable (stage : Stage d) : Readable text Stage (' ' :: closers) d := by
  -- What is inside is read by induction, and the keyword leaves only the same combinator.
  induction stage with
  | primitive =>
    intro e rest rest' stage' follows follows' same
    have keyword := Stage.primitive.keyword_eq stage' follows follows' same
    cases stage' with
    | primitive =>
      cases keyword
      exact ⟨rfl, List.append_cancel_left same⟩
    | _ => cases keyword
  | array inhabited are ih =>
    refine readable_bracketed text_array (.array inhabited are) (by decide)
      (readable_sequence inhabited fun d inside => ⟨are d inside, ih d inside⟩) ?_
    intro e stage' keyword
    cases stage' with
    | array inhabited' are' => exact ⟨_, ⟨_, inhabited', are', rfl⟩, rfl⟩
    | _ => cases keyword
  | optional inhabited are ih =>
    refine readable_bracketed text_optional (.optional inhabited are) (by decide)
      (readable_sequence inhabited fun d inside => ⟨are d inside, ih d inside⟩) ?_
    intro e stage' keyword
    cases stage' with
    | optional inhabited' are' => exact ⟨_, ⟨_, inhabited', are', rfl⟩, rfl⟩
    | _ => cases keyword
  | nullable inhabited are ih =>
    refine readable_bracketed text_nullable (.nullable inhabited are) (by decide)
      (readable_sequence inhabited fun d inside => ⟨are d inside, ih d inside⟩) ?_
    intro e stage' keyword
    cases stage' with
    | nullable inhabited' are' => exact ⟨_, ⟨_, inhabited', are', rfl⟩, rfl⟩
    | _ => cases keyword
  | alt inhabited are ih =>
    refine readable_bracketed text_alt (.alt inhabited are) (by decide)
      (readable_options inhabited fun steps option d inside =>
        ⟨are steps option d inside, ih steps option d inside⟩) ?_
    intro e stage' keyword
    cases stage' with
    | alt inhabited' are' =>
      exact ⟨_, List.forall_mem_map.mpr fun steps option =>
        ⟨steps, inhabited' steps option, are' steps option, rfl⟩, rfl⟩
    | _ => cases keyword
  | object keys inhabited are ih =>
    refine readable_bracketed text_object (.object keys inhabited are) (by decide)
      (readable_fields keys inhabited fun field member d inside =>
        ⟨are field member d inside, ih field member d inside⟩) ?_
    intro e stage' keyword
    cases stage' with
    | object keys' inhabited' are' =>
      exact ⟨_, List.forall_mem_map.mpr fun field member => ⟨keys' field member, field.2,
        inhabited' field member, are' field member, rfl⟩, rfl⟩
    | _ => cases keyword

/-- Flat decoders with one name are one decoder. -/
theorem flattened_eq_of_name (legible : d.Everywhere fun e => e.isLegible)
    (legible' : e.Everywhere fun e => e.isLegible) (same : d.name = e.name) :
    d.flattened = e.flattened := by
  have texts : d.flattened.text ++ [] = e.flattened.text ++ [] := by
    rw [text_flattened, text_flattened, text, text, same]
  have readable : Readable text Flat closers d.flattened :=
    readable_sequence d.stages_ne_nil fun stage member =>
      ⟨stage_of_mem_stages legible member, (stage_of_mem_stages legible member).readable⟩
  exact (readable e.flattened [] [] (flat_flattened legible') follows_nil follows_nil texts).1

theorem isNamed_of_isLegible {d : Decoder} (legible : d.isLegible = true) : d.isNamed = true := by
  rw [isNamed_iff]
  cases d with
  | primitive p => cases p <;> decide
  | compose first rest => exact name_compose_ne_empty first rest
  | object | array | optional | nullable | alt => exact around_ne_empty _ _
  | _ => cases legible

theorem literal_eq_iff : d.literal = e.literal ↔ d.name = e.name := by
  constructor
  · intro same
    have chars := congrArg String.toList same
    simp only [literal, String.toList_append, List.append_assoc] at chars
    exact String.toList_inj.mp (List.append_cancel_right (List.append_cancel_left chars))
  · intro same
    rw [literal, literal, same]

/-- Legible decoders have one name just when they are the same up to the nesting of compositions
and compositions of one stage. Then nothing tells them apart but which decoders are entered: on
every value, and at every context, they give the same or fail in the same way, with the same
callbacks and log. -/
theorem name_determines_behaviour (legible : d.Everywhere fun e => e.isLegible)
    (legible' : e.Everywhere fun e => e.isLegible) :
    (d.literal = e.literal ↔ d.name = e.name) ∧ (d.name = e.name ↔ d.flattened = e.flattened) ∧
      (d.name = e.name → ∀ defs fuel v,
        (∀ c, (d.runAt defs fuel v c).LooksLike (e.runAt defs fuel v c)) ∧
        ∀ config, (d.run defs fuel config v).LooksLike (e.run defs fuel config v)) := by
  have named := legible.imp fun _ => isNamed_of_isLegible
  have named' := legible'.imp fun _ => isNamed_of_isLegible
  refine ⟨literal_eq_iff, ⟨flattened_eq_of_name legible legible', fun flat => ?_⟩, ?_⟩
  · rw [← name_flattened named, ← name_flattened named', flat]
  · intro same defs fuel v
    have alike (c : Context) :
        (d.runAt defs fuel v c).unentered = (e.runAt defs fuel v c).unentered := by
      rw [runAt, runAt, unentered_flattened named, flattened_eq_of_name legible legible' same,
        unentered_flattened named']
    refine ⟨fun c => Run.looksLike_of_unentered (alike c), fun config => ?_⟩
    have logged (record : Record) : Event.unentered (.logged record) = some (.logged record) := rfl
    apply Run.looksLike_of_unentered
    rw [run, run, Run.unentered, Run.unentered, Run.seen_announced _ logged,
      Run.seen_announced _ logged]
    exact congrArg _ (alike (.root config))

/-- A composition inside another and one of a single stage, and the same without them. -/
theorem name_determines_behaviour_nested :
    let options (field : Decoder) : Decoder :=
      .alt [.compose (.primitive .string) [.primitive .url], .object [(.text "a_1", field)]]
    let d : Decoder := .compose (.compose (.primitive .unknown) [.primitive .identity])
      [options (.nullable (.primitive .number))]
    let e : Decoder := .compose (.primitive .unknown)
      [.compose (.primitive .identity) [options (.nullable (.compose (.primitive .number) []))]]
    let shown := "unknown >> identity >> alt(string >> url, object(\x7ba_1: nullable(number)\x7d))"
    d.name = shown ∧ e.name = shown ∧ d.flattened = e.flattened ∧
      (d.run [] 0 .default (.int 0)).LooksLike (e.run [] 0 .default (.int 0)) := by
  intro options d e shown
  have legible : d.Everywhere fun e => e.isLegible := by decide
  have legible' : e.Everywhere fun e => e.isLegible := by decide
  have named : d.name = shown := by decide +kernel
  have named' : e.name = shown := by decide +kernel
  obtain ⟨_, flat, alike⟩ := name_determines_behaviour legible legible'
  have same := named.trans named'.symm
  exact ⟨named, named', flat.mp same, (alike same [] 0 (.int 0)).2 .default⟩

/-- With a colon in its name one field may read like two. -/
example :
    name (.object [(.text "a: string, b", .primitive .url)]) =
      name (.object [(.text "a", .primitive .string), (.text "b", .primitive .url)]) := by
  decide +kernel

end Names

end Decoder

end Intake
