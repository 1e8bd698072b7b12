/-!
# Base ten

Digits at the beginning of a text, and the number that they write.
-/

namespace GraphShapes.Text.Decimal

/-- The digits at the beginning of a text, and what follows them. -/
def span (cs : List Char) : List Char × List Char :=
  (cs.takeWhile Char.isDigit, cs.dropWhile Char.isDigit)

/-- The number that digits write. -/
def value (ds : List Char) : Nat :=
  ds.foldl (fun n c => 10 * n + (c.toNat - '0'.toNat)) 0

/-- The number that a text of digits, at least one of them, writes. -/
def number? (cs : List Char) : Option Nat :=
  if cs.isEmpty || cs.any fun c => !c.isDigit then none else some (value cs)

end GraphShapes.Text.Decimal
