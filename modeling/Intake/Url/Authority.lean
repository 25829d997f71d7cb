import Intake.Url.Address

/-!
The authority of a URL: optional user information, a host, and an optional port.
-/
namespace Intake.Url

structure Authority where
  host : List Char
  port : List Char

/-- Host and port as written, after any user information. A bracketed host ends at its closing
bracket. -/
def Authority.ofChars (cs : List Char) : Authority :=
  let location := afterLast '@' cs
  if location.contains '[' then
    let bracketed := after '[' location
    ⟨upTo ']' bracketed, after ':' (after ']' bracketed)⟩
  else ⟨upTo ':' location, after ':' location⟩

def greatestPort : Nat := 65535

def isPort (cs : List Char) : Bool :=
  cs.all Char.isDigit && cs.length ≤ Text.longestNumeral && Text.digitsValue cs ≤ greatestPort

/-- Brackets occur in pairs around a literal address, with nothing before them and only a port
after. -/
def hasGoodBrackets (cs : List Char) : Bool :=
  match cs.contains '[', cs.contains ']' with
  | false, false => true
  | true, true =>
    let location := afterLast '@' cs
    if location.contains '[' then
      let bracketed := after '[' location
      let rest := after ']' bracketed
      (upTo '[' location).isEmpty && (rest.isEmpty || rest.head? == some ':') &&
        isBracketedHost (upTo ']' bracketed)
    else isBracketedHost (upTo ':' location)
  | _, _ => false

/-- The non-ASCII characters whose compatibility decomposition holds a delimiter of URLs. -/
def disguisedDelimiters : List Nat :=
  [0x2047, 0x2048, 0x2049, 0x2100, 0x2101, 0x2105, 0x2106, 0x2A74, 0xFE13, 0xFE16, 0xFE55, 0xFE56,
    0xFE5F, 0xFE6B, 0xFF03, 0xFF0F, 0xFF1A, 0xFF1F, 0xFF20]

def isSplittable (cs : List Char) : Bool :=
  hasGoodBrackets cs && !cs.any fun c => disguisedDelimiters.contains c.toNat

end Intake.Url
