import GraphShapes.Json.Token

/-!
# Reading JSON

A text is read into one value: its tokens must be those of a value, and nothing may follow. An
object with a member name that names half a surrogate pair is well formed and becomes `other`.
-/

namespace GraphShapes.Json

/-- The name of the member at the beginning of a list of tokens, whether it is a text, and the
tokens of the member's value. -/
def memberName? : List Token → Option (String × Bool × List Token)
  | .str s :: .colon :: rest => some (s, true, rest)
  | .torn :: .colon :: rest => some ("", false, rest)
  | _ => none

mutual

/-- The value at the beginning of a list of tokens, and the tokens behind it. Every call uses up a
token, and `fuel` bounds their number. -/
def value? : Nat → List Token → Option (Json × List Token)
  | 0, _ => none
  | fuel + 1, tokens =>
    match tokens with
    | .null :: rest => some (.null, rest)
    | .bool b :: rest => some (.bool b, rest)
    | .int i :: rest => some (.int i, rest)
    | .str s :: rest => some (.str s, rest)
    | .fraction :: rest => some (.other, rest)
    | .torn :: rest => some (.other, rest)
    | .openArr :: .closeArr :: rest => some (.arr [], rest)
    | .openArr :: rest => items? fuel [] rest
    | .openObj :: .closeObj :: rest => some (.obj [], rest)
    | .openObj :: rest => members? fuel [] true rest
    | _ => none

/-- The rest of an array from an item on; `read` holds the items so far, the last one first. -/
def items? : Nat → List Json → List Token → Option (Json × List Token)
  | 0, _, _ => none
  | fuel + 1, read, tokens =>
    match value? fuel tokens with
    | some (v, .comma :: rest) => items? fuel (v :: read) rest
    | some (v, .closeArr :: rest) => some (.arr (v :: read).reverse, rest)
    | _ => none

/-- The rest of an object from a member on; `read` holds the members so far, the last one first,
and `whole` tells whether all their names were texts. -/
def members? : Nat → List (String × Json) → Bool → List Token → Option (Json × List Token)
  | 0, _, _, _ => none
  | fuel + 1, read, whole, tokens =>
    match memberName? tokens with
    | none => none
    | some (name, isText, tokens) =>
      match value? fuel tokens with
      | some (v, .comma :: rest) => members? fuel ((name, v) :: read) (whole && isText) rest
      | some (v, .closeObj :: rest) =>
        some (if whole && isText then .obj ((name, v) :: read).reverse else .other, rest)
      | _ => none

end

/-- The value that a text writes. -/
def read? (text : String) : Option Json := do
  let tokens ← tokens? text.toList
  match value? (tokens.length + 1) tokens with
  | some (v, []) => some v
  | _ => none

end GraphShapes.Json
