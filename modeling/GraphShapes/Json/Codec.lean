import GraphShapes.Json.Reader
import GraphShapes.Json.Writer

/-!
# Codecs

Which values stand for the data of this library is decided here; how values are written as texts,
and how they are taken apart where a record, a choice or a list is expected, is the business of a
JSON library. A `Codec` is all that is used of one, and whatever reads or writes documents is told
which codec to use. Nothing in the library looks behind it.

`Codec.standard` is the codec that is used unless another one is given. A record is written as an
object of its fields or as an array of their values in order. In an object, members that are no
field are passed over, and a field may stand only once. A field may be left out of an object if it
is not required, and of the end of an array if it has a default. A choice among named cases is
written as an object with one member, the name and the content of the case; a case without content
is written as its name, or as an object with the content null.
-/

namespace GraphShapes

/-- Reads a value of a type off a JSON value, and is told how many brackets may still be nested in
each other. Only what a decoder looks into counts: a member that it passes over may be nested
deeper. -/
abbrev Decoder (α : Type) := Nat → Json → Option α

namespace Json

/-- Whether a field of a record may be left out. -/
inductive Presence where
  | required
  /-- It may be null, or be left out of an object. -/
  | optional
  /-- It may be left out, but not be null. -/
  | defaulted
deriving DecidableEq

/-- A field of a record. -/
structure Field where
  name : String
  presence : Presence := .required

/-- How deep the brackets of a text may be nested in any case. -/
def nestingLimit : Nat := 127

/-- What is used of a JSON library. Writing cannot fail: the names of all members are texts. -/
structure Codec where
  /-- The compact text of a value. -/
  write : Json → String
  /-- The value that a text writes. -/
  read? : String → Option Json
  /-- How deep brackets may be nested in a text, as far as somebody looks into them. -/
  nestingLimit : Nat
  /-- The values of the fields of a record, nothing for those that are left out. -/
  record? : List Field → Json → Option (List (Option Json))
  /-- The name and the content of the case of a choice. -/
  case? : Json → Option (String × Json)
  /-- The name of a case without content. -/
  name? : Decoder String
  /-- The items of a list. -/
  items? : Json → Option (List Json)
  /-- The value, unless it stands for nothing. -/
  given? : Json → Option Json
  str? : Json → Option String
  bool? : Json → Option Bool
  /-- The value as an unsigned number of 64 bits. -/
  word? : Json → Option UInt64
  /-- The value as a natural number of at most 64 bits. -/
  nat? : Json → Option Nat
  /-- The value as a signed number of 64 bits. -/
  int64? : Json → Option Int64
  /-- The value as a number of 8 bits. -/
  byte? : Json → Option UInt8

/-- The value of a field among the members of an object, if it may be left out without one. -/
def memberOf? (members : List (String × Json)) (field : Field) : Option (Option Json) :=
  match members.filter fun m => m.1 = field.name with
  | [] => if field.presence = .required then none else some none
  | [(_, v)] => some (some v)
  | _ => none

/-- The values of fields among the items of an array, if those without one may be left out. -/
def itemsOf? : List Field → List Json → Option (List (Option Json))
  | [], [] => some []
  | [], _ :: _ => none
  | field :: fields, [] =>
    if field.presence = .defaulted then (itemsOf? fields []).map (none :: ·) else none
  | _ :: fields, v :: items => (itemsOf? fields items).map (some v :: ·)

/-- The values of the fields of a record, nothing for those that are left out. -/
def record? (fields : List Field) : Json → Option (List (Option Json))
  | obj members => fields.mapM (memberOf? members)
  | arr items => itemsOf? fields items
  | _ => none

/-- The name and the content of the case of a choice. -/
def case? : Json → Option (String × Json)
  | obj [(name, content)] => some (name, content)
  | _ => none

/-- The name of a case without content. -/
def name? : Decoder String
  | _, str name => some name
  | _ + 1, obj [(name, null)] => some name
  | _, _ => none

/-- The codec that is used unless another one is given. -/
def Codec.standard : Codec where
  write := Json.compact
  read? := Json.read?
  nestingLimit := Json.nestingLimit
  record? := Json.record?
  case? := Json.case?
  name? := Json.name?
  items? := Json.arr?
  given? := Json.given?
  str? := Json.str?
  bool? := Json.bool?
  word? := Json.word?
  nat? := Json.nat?
  int64? := Json.int64?
  byte? := Json.byte?

end Json

end GraphShapes
