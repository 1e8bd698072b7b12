import GraphShapes.Json.Token

/-!
# Writing JSON

The compact form is the tokens of a value, one after the other. The indented form puts every item
and every member on a line of its own, two blanks deeper than the brackets around it; empty arrays
and objects stay on one line.
-/

namespace GraphShapes.Json

mutual

def tokens : Json → List Token
  | null => [.null]
  | bool b => [.bool b]
  | int i => [.int i]
  | str s => [.str s]
  | arr items => .openArr :: itemTokens items ++ [.closeArr]
  | obj members => .openObj :: memberTokens members ++ [.closeObj]
  | other => [.fraction]

def itemTokens : List Json → List Token
  | [] => []
  | [v] => v.tokens
  | v :: rest => v.tokens ++ .comma :: itemTokens rest

def memberTokens : List (String × Json) → List Token
  | [] => []
  | [(name, v)] => .str name :: .colon :: v.tokens
  | (name, v) :: rest => .str name :: .colon :: v.tokens ++ .comma :: memberTokens rest

end

def compact (v : Json) : String := String.ofList (v.tokens.flatMap Token.text)

/-- A new line with its indentation. -/
def newLine (level : Nat) : List Char := '\n' :: List.replicate (2 * level) ' '

mutual

/-- The indented form of a value inside brackets of the given level. -/
def indentedAt (level : Nat) : Json → List Char
  | arr [] => ['[', ']']
  | arr items => '[' :: indentedItems (level + 1) items ++ newLine level ++ [']']
  | obj [] => ['\x7b', '\x7d']
  | obj members => '\x7b' :: indentedMembers (level + 1) members ++ newLine level ++ ['\x7d']
  | null => Token.null.text
  | bool b => (Token.bool b).text
  | int i => (Token.int i).text
  | str s => (Token.str s).text
  | other => Token.fraction.text

/-- The items of an array, each on a line. -/
def indentedItems (level : Nat) : List Json → List Char
  | [] => []
  | [v] => newLine level ++ v.indentedAt level
  | v :: rest => newLine level ++ v.indentedAt level ++ ',' :: indentedItems level rest

/-- The members of an object, each on a line. -/
def indentedMembers (level : Nat) : List (String × Json) → List Char
  | [] => []
  | [(name, v)] =>
    newLine level ++ (Token.str name).text ++ ':' :: ' ' :: v.indentedAt level
  | (name, v) :: rest =>
    newLine level ++ (Token.str name).text ++ ':' :: ' ' :: v.indentedAt level ++
      ',' :: indentedMembers level rest

end

def indented (v : Json) : String := String.ofList (v.indentedAt 0)

end GraphShapes.Json
