import GraphShapes.Text.Hex
import GraphShapes.Text.Printable

/-!
# Strings in double quotes

The notation in which labels and diagnostics show a string: between double quotes, with a
backslash before a quote or a backslash, short escapes for the four common controls, and the
code point in braces for every other character that `isPlain` refuses. Two strings never share
a quoted form, since every escape names its character.
-/

namespace GraphShapes.Text

/-- One character of a quoted string. -/
def quoteChar (c : Char) : List Char :=
  if c = '\x00' then ['\\', '0']
  else if c = '\t' then ['\\', 't']
  else if c = '\r' then ['\\', 'r']
  else if c = '\n' then ['\\', 'n']
  else if c = '"' ∨ c = '\\' then ['\\', c]
  else if isPlain c then [c]
  else ['\\', 'u', '{'] ++ Hex.digits c.toNat ++ ['}']

/-- A string between double quotes. -/
def quote (s : String) : String :=
  String.ofList ('"' :: s.toList.flatMap quoteChar ++ ['"'])

end GraphShapes.Text
