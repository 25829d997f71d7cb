import Intake.Text.Digits

/-!
Literal network addresses: version 4 in dotted decimal, version 6 in groups of hexadecimal digits.
-/
namespace Intake.Url

/-- The stretches of a text between occurrences of a separator, at least one. -/
def pieces (separator : Char) : List Char → List (List Char)
  | [] => [[]]
  | c :: rest =>
    match pieces separator rest with
    | [] => [[c]]
    | first :: others => if c = separator then [] :: first :: others else (c :: first) :: others

def upTo (c : Char) (cs : List Char) : List Char := cs.takeWhile (· ≠ c)

def after (c : Char) (cs : List Char) : List Char := (cs.dropWhile (· ≠ c)).drop 1

def afterLast (c : Char) (cs : List Char) : List Char := (upTo c cs.reverse).reverse

def isHexDigit (c : Char) : Bool :=
  c.isDigit || ('a' ≤ c && c ≤ 'f') || ('A' ≤ c && c ≤ 'F')

def isOctet (cs : List Char) : Bool :=
  !cs.isEmpty && cs.all Char.isDigit && cs.length ≤ 3 && (cs == ['0'] || cs.head? != some '0') &&
    Text.digitsValue cs ≤ 255

def isAddress4 (cs : List Char) : Bool :=
  let octets := pieces '.' cs
  octets.length == 4 && octets.all isOctet

def isGroup (cs : List Char) : Bool := !cs.isEmpty && cs.length ≤ 4 && cs.all isHexDigit

/-- The pieces of a version 6 address, a final version 4 address standing for two groups. -/
def groups? (cs : List Char) : Option (List (List Char)) :=
  let parts := pieces ':' cs
  match parts.getLast? with
  | some last =>
    if parts.length < 3 then none
    else if last.contains '.' then
      if isAddress4 last then some (parts.dropLast ++ [['0'], ['0']]) else none
    else some parts
  | none => none

/-- The groups on one side of a double colon; an end of the text gives a single empty piece. -/
def sideGroups : List (List Char) → List (List Char)
  | [[]] => []
  | parts => parts

/-- Eight groups, or at most seven around one double colon. -/
def areGroups (parts : List (List Char)) : Bool :=
  let inner := (parts.drop 1).dropLast
  match inner.findIdx? List.isEmpty with
  | none => parts.length == 8 && parts.all isGroup
  | some skip =>
    let high := sideGroups (parts.take (skip + 1))
    let low := sideGroups (parts.drop (skip + 2))
    inner.countP List.isEmpty == 1 && parts.length ≤ 9 && high.length + low.length ≤ 7 &&
      high.all isGroup && low.all isGroup

def isAddress6 (cs : List Char) : Bool :=
  let zone := after '%' cs
  !cs.contains '/' && (!cs.contains '%' || (!zone.isEmpty && !zone.contains '%')) &&
    (groups? (upTo '%' cs)).any areGroups

/-- An address of a version to come: the letter v, hexadecimal digits, a dot, and some text. -/
def isFutureAddress : List Char → Bool
  | 'v' :: rest =>
    let version := rest.takeWhile isHexDigit
    match rest.dropWhile isHexDigit with
    | '.' :: address => !version.isEmpty && !address.isEmpty && !address.contains '\n'
    | _ => false
  | _ => false

def isBracketedHost (cs : List Char) : Bool :=
  if cs.head? = some 'v' then isFutureAddress cs else isAddress6 cs

end Intake.Url
