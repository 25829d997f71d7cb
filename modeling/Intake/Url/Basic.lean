import Intake.Url.Authority

/-!
Absolute URLs. `Url.isValid` asks for a scheme and a good port, and of a special scheme also for a
host, which may stand behind any number of slashes and backslashes.
-/
namespace Intake

structure Url where
  scheme : List Char
  authority : List Char
  path : List Char
  deriving DecidableEq, Repr

namespace Url

def isControlOrSpace (c : Char) : Bool := c.toNat ≤ 0x20

def isLineOrTab (c : Char) : Bool := c == '\t' || c == '\r' || c == '\n'

/-- A text as it is split: without leading controls and spaces, tabs and line ends. -/
def cleaned (cs : List Char) : List Char :=
  (cs.dropWhile isControlOrSpace).filter fun c => !isLineOrTab c

def isSchemeChar (c : Char) : Bool := c.isAlphanum || c == '+' || c == '-' || c == '.'

/-- The scheme in lower case, empty if there is none, and what follows its colon. -/
def splitScheme (cs : List Char) : List Char × List Char :=
  let candidate := upTo ':' cs
  if cs.contains ':' && (candidate.head?.any Char.isAlpha) && candidate.all isSchemeChar then
    (candidate.map Char.toLower, after ':' cs)
  else ([], cs)

def isDelimiter (c : Char) : Bool := c == '/' || c == '?' || c == '#'

def splitAuthority : List Char → List Char × List Char
  | '/' :: '/' :: rest =>
    (rest.takeWhile fun c => !isDelimiter c, rest.dropWhile fun c => !isDelimiter c)
  | rest => ([], rest)

def split? (cs : List Char) : Option Url :=
  let (scheme, rest) := splitScheme (cleaned cs)
  let (authority, rest) := splitAuthority rest
  if isSplittable authority then some ⟨scheme, authority, upTo '?' (upTo '#' rest)⟩ else none

def specialSchemes : List (List Char) :=
  ["http".toList, "https".toList, "ws".toList, "wss".toList, "ftp".toList]

def isSlash (c : Char) : Bool := c == '/' || c == '\\'

def host? (authority : List Char) : Option (List Char) :=
  let parts := Authority.ofChars authority
  if isPort parts.port then some parts.host else none

/-- The first stretch of a path between slashes, of either kind. -/
def pathAuthority (path : List Char) : List Char :=
  (path.dropWhile isSlash).takeWhile fun c => !isSlash c

/-- The host of a URL with a special scheme. Without an authority it is read from the path. -/
def specialHost? (url : Url) : Option (List Char) :=
  if url.authority.isEmpty then do
    let recovered ← split? ('/' :: '/' :: pathAuthority url.path)
    host? recovered.authority
  else host? url.authority

def isValid (text : String) : Bool :=
  match split? text.toList with
  | none => false
  | some url =>
    !url.scheme.isEmpty && (host? url.authority).isSome &&
      (!specialSchemes.contains url.scheme || (specialHost? url).any fun host => !host.isEmpty)

end Url

end Intake
