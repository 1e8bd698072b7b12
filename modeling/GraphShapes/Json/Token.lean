import GraphShapes.Json
import GraphShapes.Text.Decimal
import GraphShapes.Text.Hex

/-!
# JSON tokens

The words of a JSON text. `Token.text` writes a token, `tokens?` cuts a text into its tokens and
drops the white space between them. White space is blank, tab, line feed and carriage return; in
strings, control characters must be escaped; numbers have no leading zeros and no plus sign.
-/

namespace GraphShapes.Json

/-- A word of a JSON text. -/
inductive Token where
  | openArr
  | closeArr
  | openObj
  | closeObj
  | comma
  | colon
  | null
  | bool (value : Bool)
  | int (value : Int)
  | str (text : String)
  /-- A number that is not an integer, or negative zero. -/
  | fraction
  /-- A string that names half a surrogate pair. -/
  | torn
deriving DecidableEq

/-- A character of a string as it is written. -/
def escapeChar (c : Char) : List Char :=
  if c = '"' then ['\\', '"']
  else if c = '\\' then ['\\', '\\']
  else if c = '\n' then ['\\', 'n']
  else if c = '\r' then ['\\', 'r']
  else if c = '\t' then ['\\', 't']
  else if c = '\x08' then ['\\', 'b']
  else if c = '\x0c' then ['\\', 'f']
  else if c.toNat < 0x20 then
    ['\\', 'u', '0', '0'] ++ Text.Hex.byte c.toNat
  else [c]

/-- A token as it is written. What cannot be written as a value is written as null. -/
def Token.text : Token → List Char
  | openArr => ['[']
  | closeArr => [']']
  | openObj => ['\x7b']
  | closeObj => ['\x7d']
  | comma => [',']
  | colon => [':']
  | null => ['n', 'u', 'l', 'l']
  | bool true => ['t', 'r', 'u', 'e']
  | bool false => ['f', 'a', 'l', 's', 'e']
  | int i => (toString i).toList
  | str s => '"' :: s.toList.flatMap escapeChar ++ ['"']
  | fraction => ['n', 'u', 'l', 'l']
  | torn => ['n', 'u', 'l', 'l']

/-- Does the number stand for the first half of a surrogate pair? -/
def isHighSurrogate (n : Nat) : Bool := 0xd800 ≤ n && n ≤ 0xdbff

/-- Does the number stand for the second half of a surrogate pair? -/
def isLowSurrogate (n : Nat) : Bool := 0xdc00 ≤ n && n ≤ 0xdfff

/-- The character that a surrogate pair stands for. -/
def pairChar (high low : Nat) : Char :=
  Char.ofNat (0x10000 + (high - 0xd800) * 0x400 + (low - 0xdc00))

/-- The character that stands for an escape of one letter. -/
def escaped? (c : Char) : Option Char :=
  if c = '"' ∨ c = '\\' ∨ c = '/' then some c
  else if c = 'b' then some '\x08'
  else if c = 'f' then some '\x0c'
  else if c = 'n' then some '\n'
  else if c = 'r' then some '\r'
  else if c = 't' then some '\t'
  else none

/-- The second half of a surrogate pair at the beginning of a text, and what follows it. -/
def lowSurrogate? : List Char → Option (Nat × List Char)
  | '\\' :: 'u' :: a :: b :: c :: d :: rest =>
    match Text.Hex.number? [a, b, c, d] with
    | some n => if isLowSurrogate n then some (n, rest) else none
    | none => none
  | _ => none

/-- The rest of a string behind its opening quote, and what follows the string. `read` holds the
characters so far, the last one first; `whole` tells whether all escapes named characters. Every
step uses up a character, and `fuel` bounds their number. -/
def stringToken? : Nat → List Char → Bool → List Char → Option (Token × List Char)
  | 0, _, _, _ => none
  | fuel + 1, read, whole, cs =>
    match cs with
    | [] => none
    | '"' :: rest =>
      some (if whole then .str (String.ofList read.reverse) else .torn, rest)
    | '\\' :: 'u' :: a :: b :: c :: d :: rest =>
      match Text.Hex.number? [a, b, c, d] with
      | none => none
      | some n =>
        if isHighSurrogate n then
          match lowSurrogate? rest with
          | some (low, rest') => stringToken? fuel (pairChar n low :: read) whole rest'
          | none => stringToken? fuel read false rest
        else if isLowSurrogate n then stringToken? fuel read false rest
        else stringToken? fuel (Char.ofNat n :: read) whole rest
    | '\\' :: c :: rest =>
      match escaped? c with
      | some e => stringToken? fuel (e :: read) whole rest
      | none => none
    | c :: rest =>
      if c = '\\' ∨ c.toNat < 0x20 then none else stringToken? fuel (c :: read) whole rest

/-- What follows a fraction part, if there is one, and whether there is one. -/
def fractionPart? : List Char → Option (Bool × List Char)
  | '.' :: cs =>
    let (ds, rest) := Text.Decimal.span cs
    if ds.isEmpty then none else some (true, rest)
  | cs => some (false, cs)

/-- What follows the digits of an exponent. -/
def exponentDigits? (cs : List Char) : Option (Bool × List Char) :=
  let (ds, rest) := Text.Decimal.span cs
  if ds.isEmpty then none else some (true, rest)

/-- What follows an exponent part, if there is one, and whether there is one. -/
def exponentPart? : List Char → Option (Bool × List Char)
  | 'e' :: '+' :: cs => exponentDigits? cs
  | 'e' :: '-' :: cs => exponentDigits? cs
  | 'e' :: cs => exponentDigits? cs
  | 'E' :: '+' :: cs => exponentDigits? cs
  | 'E' :: '-' :: cs => exponentDigits? cs
  | 'E' :: cs => exponentDigits? cs
  | cs => some (false, cs)

/-- A number without its sign at the beginning of a text, and what follows it. -/
def numberToken? (negative : Bool) (cs : List Char) : Option (Token × List Char) := do
  let (ds, rest) := Text.Decimal.span cs
  if ds.isEmpty || (ds.head? = some '0' && 1 < ds.length) then none
  else
    let (hasFraction, rest) ← fractionPart? rest
    let (hasExponent, rest) ← exponentPart? rest
    let n := Text.Decimal.value ds
    if hasFraction || hasExponent || (negative && n = 0) then some (.fraction, rest)
    else some (.int (if negative then -(n : Int) else n), rest)

/-- The first token of a text without white space in front, and what follows it. -/
def firstToken? (cs : List Char) : Option (Token × List Char) :=
  match cs with
  | [] => none
  | '[' :: rest => some (.openArr, rest)
  | ']' :: rest => some (.closeArr, rest)
  | '\x7b' :: rest => some (.openObj, rest)
  | '\x7d' :: rest => some (.closeObj, rest)
  | ',' :: rest => some (.comma, rest)
  | ':' :: rest => some (.colon, rest)
  | 'n' :: 'u' :: 'l' :: 'l' :: rest => some (.null, rest)
  | 't' :: 'r' :: 'u' :: 'e' :: rest => some (.bool true, rest)
  | 'f' :: 'a' :: 'l' :: 's' :: 'e' :: rest => some (.bool false, rest)
  | '"' :: rest => stringToken? (rest.length + 1) [] true rest
  | '-' :: rest => numberToken? true rest
  | _ => numberToken? false cs

/-- Is the character white space between tokens? -/
def isSpace (c : Char) : Bool := c = ' ' || c = '\t' || c = '\n' || c = '\r'

/-- The tokens of a text behind those read so far, the last one first. Every token uses up a
character, and `fuel` bounds their number. -/
def tokensFrom? : Nat → List Token → List Char → Option (List Token)
  | 0, _, _ => none
  | fuel + 1, read, cs =>
    match cs.dropWhile isSpace with
    | [] => some read.reverse
    | c :: rest =>
      match firstToken? (c :: rest) with
      | some (t, rest') => tokensFrom? fuel (t :: read) rest'
      | none => none

/-- The tokens of a text, if it consists of tokens and white space. -/
def tokens? (cs : List Char) : Option (List Token) := tokensFrom? (cs.length + 1) [] cs

end GraphShapes.Json
