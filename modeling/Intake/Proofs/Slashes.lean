import Intake.Proofs.Outcome

/-! Slashes in front of a host. Whether it is read after two slashes or from the path, the
authority is the same text, so how many slashes there are, and of which kind, is of no account.
-/
namespace Intake

namespace Url

/-- A well-formed authority with a host and a good port. -/
def isUsable (authority : List Char) : Bool :=
  isSplittable authority && (host? authority).any fun host => !host.isEmpty

theorem isUsable_iff {authority : List Char} : isUsable authority = true ↔
    isSplittable authority = true ∧ isPort (Authority.ofChars authority).port = true ∧
      (Authority.ofChars authority).host ≠ [] := by
  cases port : isPort (Authority.ofChars authority).port <;> simp [isUsable, host?, port]

def isSpecial (scheme : List Char) : Bool := specialSchemes.contains (scheme.map Char.toLower)

/-- The characters that an authority may be made of: no slash of either kind, no question mark
or hash, no tab and no end of a line. -/
def isAuthorityChar (c : Char) : Bool := !isSlash c && !isDelimiter c && !isLineOrTab c

/-- Nothing, or something that ends an authority. -/
def isTail (cs : List Char) : Bool := cs.head?.all isDelimiter

variable {scheme sep t tail cs rest : List Char} {c : Char}

theorem isAuthorityChar_iff : isAuthorityChar c = true ↔
    isSlash c = false ∧ isDelimiter c = false ∧ isLineOrTab c = false := by
  simp only [isAuthorityChar, Bool.and_eq_true, Bool.not_eq_true', and_assoc]

theorem takeWhile_append_of_head {p : Char → Bool} (all : ∀ c ∈ cs, p c = true)
    (stop : ∀ c ∈ rest.head?, p c = false) : (cs ++ rest).takeWhile p = cs := by
  rw [List.takeWhile_append_of_pos all]
  cases rest with
  | nil => simp
  | cons c rest => simp [stop c rfl]

theorem dropWhile_append_of_head {p : Char → Bool} (all : ∀ c ∈ cs, p c = true)
    (stop : ∀ c ∈ rest.head?, p c = false) : (cs ++ rest).dropWhile p = rest := by
  rw [List.dropWhile_append_of_pos all]
  cases rest with
  | nil => rfl
  | cons c rest => simp [stop c rfl]

theorem upTo_append (free : c ∉ cs) (rest : List Char) :
    upTo c (cs ++ rest) = cs ++ upTo c rest := by
  apply List.takeWhile_append_of_pos
  intro d member
  exact decide_eq_true fun same => free (same ▸ member)

theorem after_append (free : c ∉ cs) (rest : List Char) : after c (cs ++ c :: rest) = rest := by
  have skipped : ∀ d ∈ cs, decide (d ≠ c) = true :=
    fun d member => decide_eq_true fun same => free (same ▸ member)
  rw [after, List.dropWhile_append_of_pos skipped]
  simp

theorem isAlpha_of_toLower (letter : c.toLower.isAlpha = true) : c.isAlpha = true := by
  unfold Char.toLower at letter
  split at letter
  next upper =>
    have isUpper : c.isUpper = true := decide_eq_true upper
    exact Bool.or_eq_true_iff.mpr (.inl isUpper)
  next => exact letter

theorem isAlpha_of_mem_special (special : isSpecial scheme = true) (member : c ∈ scheme) :
    c.isAlpha = true := by
  have letters : specialSchemes.all (fun s => s.all Char.isAlpha) = true := by decide
  have listed : scheme.map Char.toLower ∈ specialSchemes := List.contains_iff_mem.mp special
  have lower := List.all_eq_true.mp (List.all_eq_true.mp letters _ listed)
  exact isAlpha_of_toLower (lower _ (List.mem_map_of_mem member))

theorem exists_cons_of_special (special : isSpecial scheme = true) :
    ∃ c cs, scheme = c :: cs := by
  cases scheme with
  | nil => cases special
  | cons c cs => exact ⟨c, cs, rfl⟩

theorem not_control_of_isAlpha (letter : c.isAlpha = true) : isControlOrSpace c = false := by
  have least : 'A'.val ≤ c.val := by
    rcases Bool.or_eq_true_iff.mp letter with upper | lower
    · exact (of_decide_eq_true upper).1
    · have small : 'a'.val ≤ c.val := of_decide_eq_true (Bool.and_eq_true_iff.mp lower).1
      exact UInt32.le_trans (by decide) small
  have inside : 65 ≤ c.toNat := UInt32.le_iff_toNat_le.mp least
  simp only [isControlOrSpace, decide_eq_false_iff_not]
  omega

theorem not_lineOrTab_of_not_control (plain : isControlOrSpace c = false) :
    isLineOrTab c = false := by
  have differs (d : Char) (control : isControlOrSpace d = true) : c ≠ d := by
    rintro rfl
    cases plain.symm.trans control
  simp [isLineOrTab, differs '\t' rfl, differs '\r' rfl, differs '\n' rfl]

/-- Tabs and line ends are dropped behind a special scheme, and nothing before. -/
theorem cleaned_special (special : isSpecial scheme = true) (rest : List Char) :
    cleaned (scheme ++ ':' :: rest) = scheme ++ ':' :: rest.filter fun c => !isLineOrTab c := by
  have plain : ∀ x ∈ scheme, isControlOrSpace x = false :=
    fun x member => not_control_of_isAlpha (isAlpha_of_mem_special special member)
  have kept : scheme.filter (fun c => !isLineOrTab c) = scheme := by
    refine List.filter_eq_self.mpr fun x member => ?_
    rw [not_lineOrTab_of_not_control (plain x member)]
    rfl
  obtain ⟨c, cs, rfl⟩ := exists_cons_of_special special
  have first := plain c List.mem_cons_self
  have colon : isLineOrTab ':' = false := rfl
  rw [cleaned, List.cons_append, List.dropWhile_cons_of_neg (by simp [first]), ← List.cons_append,
    List.filter_append, kept, List.filter_cons_of_pos (by simp [colon])]

theorem splitScheme_special (special : isSpecial scheme = true) (rest : List Char) :
    splitScheme (scheme ++ ':' :: rest) = (scheme.map Char.toLower, rest) := by
  have letters := fun x => isAlpha_of_mem_special (c := x) special
  have free : ':' ∉ scheme := by
    intro member
    cases letters _ member
  have named : upTo ':' (scheme ++ ':' :: rest) = scheme := by
    rw [upTo_append free]
    simp [upTo]
  have good : scheme.all isSchemeChar = true := by
    refine List.all_eq_true.mpr fun x member => ?_
    simp [isSchemeChar, Char.isAlphanum, letters x member]
  have begins : (scheme.head?.any Char.isAlpha) = true := by
    obtain ⟨c, cs, rfl⟩ := exists_cons_of_special special
    exact letters c List.mem_cons_self
  have colon : (scheme ++ ':' :: rest).contains ':' = true := by simp
  simp only [splitScheme, named, good, begins, colon, after_append free, Bool.and_self, if_true]

theorem split?_special (special : isSpecial scheme = true) (rest : List Char) :
    let parts := splitAuthority (rest.filter fun c => !isLineOrTab c)
    split? (scheme ++ ':' :: rest) =
      if isSplittable parts.1 then
        some ⟨scheme.map Char.toLower, parts.1, upTo '?' (upTo '#' parts.2)⟩
      else none := by
  simp only [split?, cleaned_special special, splitScheme_special special]

section Authority

variable (authority : ∀ c ∈ t, isAuthorityChar c = true)

include authority

theorem authority_append (ends : isTail tail = true) :
    (t ++ tail).takeWhile (fun c => !isDelimiter c) = t ∧
      (t ++ tail).dropWhile (fun c => !isDelimiter c) = tail := by
  have plain : ∀ c ∈ t, (!isDelimiter c) = true := by
    intro c member
    rw [(isAuthorityChar_iff.mp (authority c member)).2.1]
    rfl
  have stop : ∀ c ∈ tail.head?, (!isDelimiter c) = false := by
    intro c first
    rw [(Option.all_eq_true _ _).mp ends c first]
    rfl
  exact ⟨takeWhile_append_of_head plain stop, dropWhile_append_of_head plain stop⟩

theorem pathAuthority_slashes (slashes : ∀ c ∈ sep, isSlash c = true) (inhabited : t ≠ [])
    (ends : isTail tail = true) :
    pathAuthority (upTo '?' (upTo '#' (sep ++ (t ++ tail)))) = t := by
  have free (d : Char) (out : isAuthorityChar d = false) (other : isSlash d = false) :
      d ∉ sep ++ t := by
    rw [List.mem_append]
    rintro (member | member)
    · cases other.symm.trans (slashes d member)
    · cases out.symm.trans (authority d member)
  have plain : ∀ c ∈ t, isSlash c = false :=
    fun c member => (isAuthorityChar_iff.mp (authority c member)).1
  have first : ∀ c ∈ (t ++ upTo '?' (upTo '#' tail)).head?, isSlash c = false := by
    obtain ⟨d, others, rfl⟩ := List.exists_cons_of_ne_nil inhabited
    rintro c begins
    cases begins
    exact plain d List.mem_cons_self
  -- Of the tail only a path is left, and that begins with a slash.
  have stop : ∀ c ∈ (upTo '?' (upTo '#' tail)).head?, isSlash c = true := by
    cases tail with
    | nil => simp [upTo]
    | cons d later =>
      have delimiter : isDelimiter d = true := ends
      simp only [isDelimiter, Bool.or_eq_true, beq_iff_eq] at delimiter
      rcases delimiter with (rfl | rfl) | rfl <;> simp [upTo, isSlash]
  rw [← List.append_assoc, upTo_append (free '#' rfl rfl), upTo_append (free '?' rfl rfl),
    pathAuthority, List.append_assoc, dropWhile_append_of_head slashes first,
    takeWhile_append_of_head (by simpa using plain) (by simpa using stop)]

/-- Two slashes begin the authority, unless a third follows, and any other slashes the path. -/
theorem splitAuthority_slashes (slashes : ∀ c ∈ sep, isSlash c = true)
    (escaped : ¬['/', '/', '\\'] <+: sep) (inhabited : t ≠ []) (ends : isTail tail = true) :
    splitAuthority (sep ++ (t ++ tail)) = (t, tail) ∨ ∃ sep', (∀ c ∈ sep', isSlash c = true) ∧
      splitAuthority (sep ++ (t ++ tail)) = ([], sep' ++ (t ++ tail)) := by
  have first (rest : List Char) : t ++ tail ≠ '/' :: rest := by
    obtain ⟨d, others, rfl⟩ := List.exists_cons_of_ne_nil inhabited
    intro begins
    obtain ⟨rfl, _⟩ := List.cons.inj begins
    cases authority '/' List.mem_cons_self
  generalize whole : sep ++ (t ++ tail) = cs
  unfold splitAuthority
  split
  next rest =>
    match sep with
    | [] => exact absurd whole (first _)
    | [_] => exact absurd (List.cons.inj whole).2 (first _)
    | [_, _] =>
      simp only [List.cons_append, List.nil_append, List.cons.injEq] at whole
      obtain ⟨rfl, rfl, rfl⟩ := whole
      obtain ⟨taken, dropped⟩ := authority_append authority ends
      exact .inl (Prod.ext taken dropped)
    | _ :: _ :: third :: more =>
      simp only [List.cons_append, List.cons.injEq] at whole
      obtain ⟨rfl, rfl, rfl⟩ := whole
      have later : ∀ c ∈ third :: more, isSlash c = true :=
        fun c member => slashes c (List.mem_cons_of_mem _ (List.mem_cons_of_mem _ member))
      have plain : third = '/' := by
        have slash := later third List.mem_cons_self
        simp only [isSlash, Bool.or_eq_true, beq_iff_eq] at slash
        refine slash.resolve_right ?_
        rintro rfl
        exact escaped (List.prefix_append ['/', '/', '\\'] more)
      subst plain
      exact .inr ⟨'/' :: more, later, rfl⟩
  next => exact .inr ⟨sep, slashes, by rw [whole]⟩

theorem split?_authority :
    split? ('/' :: '/' :: t) = if isSplittable t then some ⟨[], t, []⟩ else none := by
  have kept : t.filter (fun c => !isLineOrTab c) = t := by
    refine List.filter_eq_self.mpr fun c member => ?_
    rw [(isAuthorityChar_iff.mp (authority c member)).2.2]
    rfl
  have whole : cleaned ('/' :: '/' :: t) = '/' :: '/' :: t := by
    rw [cleaned, List.dropWhile_cons_of_neg (by decide), List.filter_cons_of_pos (by decide),
      List.filter_cons_of_pos (by decide), kept]
  have schemeless : splitScheme ('/' :: '/' :: t) = ([], '/' :: '/' :: t) := by
    simp [splitScheme, upTo]
  have parts := authority_append authority (show isTail [] = true from rfl)
  rw [List.append_nil] at parts
  simp only [split?, whole, schemeless, splitAuthority, parts.1, parts.2]
  rfl

/-- What is dropped from the rest of a text is all in its tail. -/
theorem exists_tail (slashes : ∀ c ∈ sep, isSlash c = true) (ends : isTail tail = true) :
    ∃ tail', isTail tail' = true ∧
      (sep ++ (t ++ tail)).filter (fun c => !isLineOrTab c) = sep ++ (t ++ tail') := by
  have slash {c : Char} (member : c ∈ sep) : isLineOrTab c = false := by
    have found := slashes c member
    simp only [isSlash, Bool.or_eq_true, beq_iff_eq] at found
    rcases found with rfl | rfl <;> rfl
  have plain : ∀ c ∈ sep ++ t, (!isLineOrTab c) = true := by
    intro c member
    rcases List.mem_append.mp member with member | member
    · rw [slash member]
      rfl
    · rw [(isAuthorityChar_iff.mp (authority c member)).2.2]
      rfl
  refine ⟨tail.filter fun c => !isLineOrTab c, ?_, ?_⟩
  · cases tail with
    | nil => rfl
    | cons d later =>
      have delimiter : isDelimiter d = true := ends
      have kept : (!isLineOrTab d) = true := by
        simp only [isDelimiter, Bool.or_eq_true, beq_iff_eq] at delimiter
        rcases delimiter with (rfl | rfl) | rfl <;> rfl
      have first : (d :: later).filter (fun c => !isLineOrTab c) =
          d :: later.filter fun c => !isLineOrTab c := List.filter_cons_of_pos kept
      rw [first]
      exact delimiter
  · rw [← List.append_assoc, List.filter_append, List.filter_eq_self.mpr plain,
      List.append_assoc]

/-- Whether a text with a special scheme is an absolute URL is decided by its authority alone. -/
theorem isValid_special {text : String} (special : isSpecial scheme = true)
    (slashes : ∀ c ∈ sep, isSlash c = true) (escaped : ¬['/', '/', '\\'] <+: sep)
    (inhabited : t ≠ []) (ends : isTail tail = true)
    (written : text.toList = scheme ++ ':' :: (sep ++ (t ++ tail))) :
    isValid text = isUsable t := by
  obtain ⟨tail', ends', kept⟩ := exists_tail authority slashes ends
  have listed : specialSchemes.contains (scheme.map Char.toLower) = true := special
  have named : (scheme.map Char.toLower).isEmpty = false := by
    obtain ⟨c, cs, rfl⟩ := exists_cons_of_special special
    rfl
  have present : t.isEmpty = false := by rwa [List.isEmpty_eq_false_iff]
  simp only [isValid, written, split?_special special, kept, isUsable]
  rcases splitAuthority_slashes authority slashes escaped inhabited ends' with
    direct | ⟨sep', slashes', recovered⟩
  · rw [direct]
    cases splittable : isSplittable t with
    | false => simp
    | true =>
      cases host : host? t <;>
        simp only [listed, named, present, specialHost?, host, Option.isSome, if_true,
          Bool.not_true, Bool.not_false, Bool.true_and, Bool.false_and, Bool.false_or,
          Bool.false_eq_true, if_false, Option.any_some, Option.any_none]
  · have empty : isSplittable [] = true := by decide
    have hostless : host? [] = some [] := by decide
    have path := pathAuthority_slashes authority slashes' inhabited ends'
    rw [recovered]
    simp only [empty, hostless, path, listed, named, specialHost?, split?_authority authority,
      if_true]
    cases splittable : isSplittable t with
    | false => rfl
    | true => rfl

end Authority

end Url

namespace Decoder

variable {defs : Definitions} {fuel : Nat} {c : Context} {s : String} {w : Value}

theorem outcome_url : ((primitive .url).runAt defs fuel (.text s) c).outcome = .ok w ↔
    Url.isValid s = true ∧ w = .text s := by
  rw [runAt, action_eq_run, body, Action.outcome_primitive_eq_ok, Primitive.accept_url_text]
  cases Url.isValid s with
  | false => simp
  | true => simp [eq_comm]

/-- A special scheme may be followed by any slashes, except that no backslash comes third after
two others, and the authority by any tail: all such texts are URLs, or none is. Which it is depends
on the host and the port in the authority alone. -/
theorem slashes_are_immaterial {scheme sep t tail : String}
    (special : Url.isSpecial scheme.toList = true)
    (slashes : ∀ c ∈ sep.toList, Url.isSlash c = true)
    (escaped : ¬['/', '/', '\\'] <+: sep.toList) (inhabited : t ≠ "")
    (authority : ∀ c ∈ t.toList, Url.isAuthorityChar c = true)
    (ends : Url.isTail tail.toList = true) (defs : Definitions) (fuel : Nat) (c : Context) :
    let accepts (text : String) :=
      ∃ w, ((primitive .url).runAt defs fuel (.text text) c).outcome = .ok w
    let parts := Url.Authority.ofChars t.toList
    (accepts (scheme ++ ":" ++ sep ++ t ++ tail) ↔ accepts (scheme ++ "://" ++ t)) ∧
      (accepts (scheme ++ "://" ++ t) ↔ Url.isSplittable t.toList = true ∧
        Url.isPort parts.port = true ∧ parts.host ≠ []) := by
  intro accepts parts
  have decided (text : String) : accepts text ↔ Url.isValid text = true := by
    constructor
    · rintro ⟨w, given⟩
      exact (outcome_url.mp given).1
    · intro valid
      exact ⟨.text text, outcome_url.mpr ⟨valid, rfl⟩⟩
  have nonempty : t.toList ≠ [] := fun nothing => inhabited (String.toList_eq_nil_iff.mp nothing)
  have lax : Url.isValid (scheme ++ ":" ++ sep ++ t ++ tail) = Url.isUsable t.toList :=
    Url.isValid_special authority special slashes escaped nonempty ends (by simp)
  have both : ∀ x ∈ ['/', '/'], Url.isSlash x = true := List.all_eq_true.mp rfl
  have strict : Url.isValid (scheme ++ "://" ++ t) = Url.isUsable t.toList :=
    Url.isValid_special authority special both (by decide) nonempty
      (show Url.isTail [] = true from rfl) (by simp)
  rw [decided, decided, lax, strict, Url.isUsable_iff]
  exact ⟨Iff.rfl, Iff.rfl⟩

/-- A user, a literal address and a port behind a backslash and a slash. -/
theorem slashes_are_immaterial_bracketed :
    let accepts (text : String) :=
      ∃ w, ((primitive .url).runAt [] 0 (.text text) (.root .default)).outcome = .ok w
    accepts "HttpS:\\/me@[::1]:443/a\t?b" ∧ accepts "HttpS://me@[::1]:443" := by
  intro accepts
  obtain ⟨same, decided⟩ := @slashes_are_immaterial "HttpS" "\\/" "me@[::1]:443" "/a\t?b"
    (by decide +kernel) (List.all_eq_true.mp (by decide +kernel)) (by decide +kernel) (by decide)
    (List.all_eq_true.mp (by decide +kernel)) (by decide +kernel) [] 0 (.root .default)
  have strict : accepts "HttpS://me@[::1]:443" := decided.mpr (by decide +kernel)
  exact ⟨same.mpr strict, strict⟩

end Decoder

end Intake
