/-
# Quoted text

A text is quoted between single quotes, or between double quotes if it holds single
quotes and no double ones. A backslash and the surrounding quote are written behind
a backslash, the tab, the line feed and the carriage return as a letter, and any
other character that is not printable by its code point in two, four or eight
hexadecimal digits.

Key definitions: `Quoted.delimiter`, `Quoted.encodeChar`, `quoted`.
-/
import SteeredConv.Text.Printable

namespace SteeredConv
namespace Quoted

/-- The quote that surrounds a text. -/
def delimiter (cs : List Char) : Char :=
  if '\'' ∈ cs ∧ '"' ∉ cs then '"' else '\''

/-- The last `width` hexadecimal digits of `n`. -/
def hexDigits (n : Nat) : Nat → List Char
  | 0 => []
  | width + 1 => hexDigits (n / 16) width ++ [Nat.digitChar (n % 16)]

/-- The written form of one character between quotes `q`. -/
def encodeChar (q c : Char) : List Char :=
  if c = q ∨ c = '\\' then ['\\', c]
  else if c = '\n' then ['\\', 'n']
  else if c = '\r' then ['\\', 'r']
  else if c = '\t' then ['\\', 't']
  else if isPrintable c then [c]
  else if c.toNat < 0x100 then '\\' :: 'x' :: hexDigits c.toNat 2
  else if c.toNat < 0x10000 then '\\' :: 'u' :: hexDigits c.toNat 4
  else '\\' :: 'U' :: hexDigits c.toNat 8

end Quoted

/-- A text between quotes. -/
def quoted (s : String) : String :=
  let cs := s.toList
  let q := Quoted.delimiter cs
  String.ofList (q :: cs.flatMap (Quoted.encodeChar q) ++ [q])

end SteeredConv
