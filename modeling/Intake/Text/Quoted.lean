import Intake.Text.Printable

/-!
Quoted notation for texts and byte strings: between single quotes, or between double quotes when
that spares escaping the single quotes they hold.
-/
namespace Intake.Text

def singleQuote : Char := '\x27'

def doubleQuote : Char := '\x22'

def hexDigits (width n : Nat) : List Char :=
  (List.range width).reverse.map fun place => Nat.digitChar (n / Nat.pow 16 place % 16)

/-- Double quotes are used only for a text with a single quote and no double quote in it. -/
def quoteFor (holds : Char → Bool) : Char :=
  if holds singleQuote && !holds doubleQuote then doubleQuote else singleQuote

def letterEscape? : Char → Option Char
  | '\n' => some 'n'
  | '\r' => some 'r'
  | '\t' => some 't'
  | _ => none

/-- A hidden character by code point: two, four or eight hexadecimal digits. -/
def escapeCode (n : Nat) : List Char :=
  if n < 0x100 then '\\' :: 'x' :: hexDigits 2 n
  else if n < 0x10000 then '\\' :: 'u' :: hexDigits 4 n
  else '\\' :: 'U' :: hexDigits 8 n

def escapeChar (quote c : Char) : List Char :=
  if c = quote ∨ c = '\\' then ['\\', c]
  else match letterEscape? c with
    | some letter => ['\\', letter]
    | none => if isPrintable c then [c] else escapeCode c.toNat

def quoted (s : String) : String :=
  let cs := s.toList
  let quote := quoteFor cs.contains
  String.ofList (quote :: (cs.flatMap (escapeChar quote) ++ [quote]))

/-- How one byte stands inside a byte string quoted with `quote`: only ASCII shows as itself. -/
def escapeByte (quote : Char) (b : UInt8) : List Char :=
  let c := Char.ofNat b.toNat
  if c = quote ∨ c = '\\' then ['\\', c]
  else match letterEscape? c with
    | some letter => ['\\', letter]
    | none => if 0x20 ≤ b.toNat ∧ b.toNat < 0x7F then [c] else '\\' :: 'x' :: hexDigits 2 b.toNat

def quotedBytes (bytes : List UInt8) : String :=
  let quote := quoteFor fun c => bytes.any fun b => b.toNat == c.toNat
  String.ofList ('b' :: quote :: (bytes.flatMap (escapeByte quote) ++ [quote]))

example : quoted "it's" = "\"it's\"" := by decide +kernel
example : quoted "a\nb" = "'a\\nb'" := by decide +kernel
example : quotedBytes [0x61, 0xFF] = "b'a\\xff'" := by decide +kernel

end Intake.Text
