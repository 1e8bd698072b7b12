import GraphShapes.Json.Codec

/-!
# Reading values off JSON

How decoders are put together, given a codec: lists and optional fields out of their parts, and
values of whole texts.
-/

namespace GraphShapes

namespace Json

/-- Reads the items of a list. -/
def Codec.list? {α : Type} (codec : Codec) (item : Decoder α) : Decoder (List α)
  | nesting + 1, v => (codec.items? v).bind fun items => items.mapM (item nesting)
  | _, _ => none

/-- Reads the items of an array. -/
def list? {α : Type} (item : Decoder α) : Decoder (List α) := Codec.standard.list? item

/-- The value of an optional field. -/
def Codec.optional? {α : Type} (codec : Codec) (decode : Json → Option α) :
    Option Json → Option (Option α)
  | none => some none
  | some v =>
    match codec.given? v with
    | none => some none
    | some v => (decode v).map some

/-- The value of a field with a default. -/
def orDefault? {α : Type} (default : α) (decode : Json → Option α) : Option Json → Option α
  | none => some default
  | some v => decode v

/-- A choice with content. -/
def ofCase (name : String) (content : Json) : Json := obj [(name, content)]

/-- An array of encoded items. -/
def ofList {α : Type} (encode : α → Json) (items : List α) : Json := arr (items.map encode)

end Json

/-- The value that a text writes. -/
def Decoder.ofText? {α : Type} (decode : Decoder α) (text : String)
    (codec : Json.Codec := .standard) : Option α :=
  (codec.read? text).bind (decode codec.nestingLimit)

end GraphShapes
