/-!
The characters of numerals in all scripts. Unicode 14 gives each script's decimal digits ten code
points in a row, so the table of digits lists the zeros alone.
-/
namespace Intake.Text

/-- The zeros beyond ASCII, in ascending order. -/
def digitZeros : List Nat :=
  [0x0660, 0x06F0, 0x07C0, 0x0966, 0x09E6, 0x0A66, 0x0AE6, 0x0B66, 0x0BE6, 0x0C66, 0x0CE6, 0x0D66,
   0x0DE6, 0x0E50, 0x0ED0, 0x0F20, 0x1040, 0x1090, 0x17E0, 0x1810, 0x1946, 0x19D0, 0x1A80, 0x1A90,
   0x1B50, 0x1BB0, 0x1C40, 0x1C50, 0xA620, 0xA8D0, 0xA900, 0xA9D0, 0xA9F0, 0xAA50, 0xABF0, 0xFF10,
   0x104A0, 0x10D30, 0x11066, 0x110F0, 0x11136, 0x111D0, 0x112F0, 0x11450, 0x114D0, 0x11650,
   0x116C0, 0x11730, 0x118E0, 0x11950, 0x11C50, 0x11D50, 0x11DA0, 0x16A60, 0x16AC0, 0x16B50,
   0x1D7CE, 0x1D7D8, 0x1D7E2, 0x1D7EC, 0x1D7F6, 0x1E140, 0x1E2F0, 0x1E950, 0x1FBF0]

def wideBlanks : List Nat :=
  [0x0085, 0x00A0, 0x1680, 0x2000, 0x2001, 0x2002, 0x2003, 0x2004, 0x2005, 0x2006, 0x2007, 0x2008,
   0x2009, 0x200A, 0x2028, 0x2029, 0x202F, 0x205F, 0x3000]

def asciiDigit? (c : Char) : Option Char :=
  (digitZeros.find? fun start => start ≤ c.toNat && c.toNat < start + 10).map fun start =>
    Char.ofNat ('0'.toNat + (c.toNat - start))

/-- The ASCII character that stands for a character of a numeral: itself, a digit or the space. No
other character beyond ASCII is part of a numeral. -/
def asciiNumeral? (c : Char) : Option Char :=
  if c.toNat < 0x80 then some c
  else if wideBlanks.contains c.toNat then some ' '
  else asciiDigit? c

theorem asciiNumeral?_of_ascii {c : Char} (ascii : c.toNat < 0x80) : asciiNumeral? c = some c :=
  if_pos ascii

example : asciiNumeral? '٣' = some '3' := by decide
example : asciiNumeral? '𝟗' = some '9' := by decide
example : asciiNumeral? '\u3000' = some ' ' := by decide
example : asciiNumeral? '²' = none := by decide

end Intake.Text
