/-!
# JSON values

JSON as this library uses it: numbers are integers, and objects keep the order and the repetitions
of their members. A well-formed text can also hold what no decoder here accepts, a number with a
fraction or an exponent, or a string that names half a surrogate pair; such a value is kept as
`other`, so that a reader can still pass over it.
-/

namespace GraphShapes

/-- A JSON value. -/
inductive Json where
  | null
  | bool (value : Bool)
  | int (value : Int)
  | str (text : String)
  | arr (items : List Json)
  | obj (members : List (String × Json))
  /-- A well-formed value that stands for nothing in this data model. -/
  | other
deriving Inhabited

namespace Json

mutual

/-- How deep arrays and objects are nested in each other. -/
def depth : Json → Nat
  | arr items => depthOfItems items + 1
  | obj members => depthOfMembers members + 1
  | _ => 0

def depthOfItems : List Json → Nat
  | [] => 0
  | v :: rest => max v.depth (depthOfItems rest)

def depthOfMembers : List (String × Json) → Nat
  | [] => 0
  | (_, v) :: rest => max v.depth (depthOfMembers rest)

end

/-- Puts a member at its place among members sorted by name, unless a later one has its name. -/
def placeMember (name : String) (v : Json) : List (String × Json) → List (String × Json)
  | [] => [(name, v)]
  | (key, w) :: rest =>
    if name = key then (key, w) :: rest
    else if name < key then (name, v) :: (key, w) :: rest
    else (key, w) :: placeMember name v rest

mutual

/-- The value with the members of every object sorted by name, the last of equal names staying. -/
def canonical : Json → Json
  | arr items => arr (canonicalItems items)
  | obj members => obj (canonicalMembers members)
  | v => v

def canonicalItems : List Json → List Json
  | [] => []
  | v :: rest => v.canonical :: canonicalItems rest

def canonicalMembers : List (String × Json) → List (String × Json)
  | [] => []
  | (name, v) :: rest => placeMember name v.canonical (canonicalMembers rest)

end

def str? : Json → Option String
  | str s => some s
  | _ => none

def bool? : Json → Option Bool
  | bool b => some b
  | _ => none

/-- The value as a number in a range. -/
def intIn? (lo hi : Int) : Json → Option Int
  | int i => if lo ≤ i ∧ i ≤ hi then some i else none
  | _ => none

/-- The value as an unsigned number of 64 bits. -/
def word? (v : Json) : Option UInt64 :=
  (v.intIn? 0 (UInt64.size - 1)).map fun i => i.toNat.toUInt64

/-- The value as a natural number of at most 64 bits. -/
def nat? (v : Json) : Option Nat := (v.intIn? 0 (UInt64.size - 1)).map Int.toNat

/-- The value as a signed number of 64 bits. -/
def int64? (v : Json) : Option Int64 :=
  (v.intIn? Int64.minValue.toInt Int64.maxValue.toInt).map Int64.ofInt

/-- The value as a number of 8 bits. -/
def byte? (v : Json) : Option UInt8 := (v.intIn? 0 255).map fun i => i.toNat.toUInt8

/-- The items of an array. -/
def arr? : Json → Option (List Json)
  | arr items => some items
  | _ => none

/-- The value, unless it is null. -/
def given? : Json → Option Json
  | null => none
  | v => some v

def nat (n : Nat) : Json := int n

def word (n : UInt64) : Json := int n.toNat

/-- A value that may be missing. -/
def ofOption : Option Json → Json
  | some v => v
  | none => null

end Json

end GraphShapes
