/-!
# Base sixteen

Digits are written in lower case and read in either case.
-/

namespace GraphShapes.Text.Hex

/-- The digit of a number below sixteen. -/
def digit (n : Nat) : Char := Nat.digitChar n

/-- The digits of a number without leading zeros. -/
def digits (n : Nat) : List Char := Nat.toDigits 16 n

/-- The two digits of a byte. -/
def byte (n : Nat) : List Char := [digit (n / 16), digit (n % 16)]

/-- The number that a digit stands for. -/
def value? (c : Char) : Option Nat :=
  if '0' ≤ c ∧ c ≤ '9' then some (c.toNat - '0'.toNat)
  else if 'a' ≤ c ∧ c ≤ 'f' then some (c.toNat - 'a'.toNat + 10)
  else if 'A' ≤ c ∧ c ≤ 'F' then some (c.toNat - 'A'.toNat + 10)
  else none

/-- The number that digits write behind those of `n`. -/
def numberFrom? : Nat → List Char → Option Nat
  | n, [] => some n
  | n, c :: rest => (value? c).bind fun d => numberFrom? (16 * n + d) rest

/-- The number that digits write. -/
def number? (cs : List Char) : Option Nat := numberFrom? 0 cs

end GraphShapes.Text.Hex
