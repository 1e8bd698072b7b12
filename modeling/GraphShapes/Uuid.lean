import GraphShapes.Text.Hex

/-!
# Universally unique identifiers

A 128-bit number. It is written as 32 hexadecimal digits in groups of 8, 4, 4, 4 and 12, and may
be read in three more forms: without hyphens, in braces, and as a uniform resource name, whose
scheme and namespace may be in either case.
-/

namespace GraphShapes

/-- An identifier of 128 bits. -/
structure Uuid where
  value : BitVec 128
deriving DecidableEq

namespace Uuid

/-- The identifier whose bits are all zero. -/
def nil : Uuid := ⟨0⟩

/-- The identifier that exactly 32 hexadecimal digits write. -/
def ofDigits? (cs : List Char) : Option Uuid :=
  if cs.length = 32 then (Text.Hex.number? cs).map fun n => ⟨BitVec.ofNat 128 n⟩ else none

/-- The digits of the hyphenated form, if the hyphens are at their places. -/
def ungroup? (cs : List Char) : Option (List Char) :=
  if cs.length = 36 ∧ [8, 13, 18, 23].all (fun i => cs[i]? = some '-') then
    some (cs.take 8 ++ (cs.drop 9).take 4 ++ (cs.drop 14).take 4 ++ (cs.drop 19).take 4 ++
      cs.drop 24)
  else none

/-- The identifier that a text writes. -/
def ofText? (text : String) : Option Uuid :=
  let cs := text.toList
  let urn := "urn:uuid:".toList
  if cs.length = 32 then ofDigits? cs
  else if cs.length = 45 ∧ (cs.take 9).map Char.toLower = urn then (ungroup? (cs.drop 9)).bind ofDigits?
  else if cs.length = 38 ∧ cs.head? = some '\x7b' ∧ cs.getLast? = some '\x7d' then
    (ungroup? ((cs.drop 1).take 36)).bind ofDigits?
  else (ungroup? cs).bind ofDigits?

/-- The digits of the identifier, the highest first. -/
def digits (u : Uuid) : List Char :=
  let cs := Text.Hex.digits u.value.toNat
  List.replicate (32 - cs.length) '0' ++ cs

def display (u : Uuid) : String :=
  let cs := u.digits
  String.ofList (cs.take 8 ++ ['-'] ++ (cs.drop 8).take 4 ++ ['-'] ++ (cs.drop 12).take 4 ++
    ['-'] ++ (cs.drop 16).take 4 ++ ['-'] ++ cs.drop 20)

end Uuid

end GraphShapes
