import GraphShapes.Encoding.Term
import GraphShapes.Row

/-!
# Rows in JSON

A row is a record of its columns, its scope and its trace. The columns must not be missing: no
document is read as a row without a target.
-/

namespace GraphShapes

def ShapeId.toJson (id : ShapeId) : Json := .word id.value

def ShapeId.ofJson? (codec : Json.Codec := .standard) : Decoder ShapeId := fun _ v =>
  (codec.word? v).map ShapeId.mk

namespace Scope

def toJson (s : Scope) : Json := .str s.name

def ofName? (name : String) : Option Scope := [base, delta].find? fun s => s.name = name

def ofJson? (codec : Json.Codec := .standard) : Decoder Scope := fun nesting v =>
  (codec.name? nesting v).bind ofName?

end Scope

namespace Layout

def toJson (l : Layout) : Json := .str l.name

def ofName? (name : String) : Option Layout :=
  [tripleBased, aggregated].find? fun l => l.name = name

def ofJson? (codec : Json.Codec := .standard) : Decoder Layout := fun nesting v =>
  (codec.name? nesting v).bind ofName?

end Layout

namespace Row

def toJson (row : Row) : Json :=
  .obj [("line", .ofList Term.toJson row.line), ("scope", row.scope.toJson),
    ("shapes", .ofList ShapeId.toJson row.trace)]

def fields : List Json.Field :=
  [⟨"line", .required⟩, ⟨"scope", .defaulted⟩, ⟨"shapes", .defaulted⟩]

def ofJson? (codec : Json.Codec := .standard) : Decoder Row
  | 0, _ => none
  | nesting + 1, v =>
    match codec.record? fields v with
    | some [some line, scope, trace] => do
      let row ← ofLine? (← codec.list? (Term.ofJson? codec) nesting line)
      let scope ← Json.orDefault? .base (Scope.ofJson? codec nesting) scope
      let trace ← Json.orDefault? [] (codec.list? (ShapeId.ofJson? codec) nesting) trace
      return { row with scope := scope, trace := trace }
    | _ => none

end Row

end GraphShapes
