import GraphShapes.Encoding.Record
import GraphShapes.Store

/-!
# Terms, statements and stores in JSON

A term is a choice among its kinds, a statement a record of its three positions, and a store the
list of its statements in order.
-/

namespace GraphShapes

namespace TermKind

def toJson (k : TermKind) : Json := .str k.name

def ofName? (name : String) : Option TermKind := all.find? fun k => k.name = name

def ofJson? (codec : Json.Codec := .standard) : Decoder TermKind := fun nesting v =>
  (codec.name? nesting v).bind ofName?

end TermKind

/-- A statement in JSON, given its positions in JSON. -/
def Statement.record (subject predicate object : Json) : Json :=
  .obj [("subject", subject), ("predicate", predicate), ("object", object)]

def Statement.fields : List Json.Field := [⟨"subject", .required⟩, ⟨"predicate", .required⟩,
  ⟨"object", .required⟩]

def Term.toJson : Term → Json
  | iri name => .ofCase "Iri" (.str name)
  | blank label => .ofCase "Blank" (.str label)
  | str text => .ofCase "Str" (.str text)
  | int value => .ofCase "Int" (.int value.toInt)
  | bool value => .ofCase "Bool" (.bool value)
  | triple s p o => .ofCase "Triple" (Statement.record s.toJson p.toJson o.toJson)

def Statement.toJson (st : Statement) : Json :=
  record st.subject.toJson st.predicate.toJson st.object.toJson

mutual

def Term.ofJson? (codec : Json.Codec := .standard) : Nat → Json → Option Term
  | 0, _ => none
  | nesting + 1, v =>
    match codec.case? v with
    | some ("Iri", content) => (codec.str? content).map .iri
    | some ("Blank", content) => (codec.str? content).map .blank
    | some ("Str", content) => (codec.str? content).map .str
    | some ("Int", content) => (codec.int64? content).map .int
    | some ("Bool", content) => (codec.bool? content).map .bool
    | some ("Triple", content) => (Statement.ofJson? codec nesting content).map Statement.quoted
    | _ => none

def Statement.ofJson? (codec : Json.Codec := .standard) : Nat → Json → Option Statement
  | 0, _ => none
  | nesting + 1, v =>
    match codec.record? Statement.fields v with
    | some [some s, some p, some o] => do
      return ⟨← Term.ofJson? codec nesting s, ← Term.ofJson? codec nesting p,
        ← Term.ofJson? codec nesting o⟩
    | _ => none

end

namespace Store

def toJson (s : Store) : Json := .ofList Statement.toJson s.toList

/-- Reads a store: the statements of a list, in any order and any number of times. -/
def ofJson? (codec : Json.Codec := .standard) : Decoder Store := fun nesting v =>
  (codec.list? (Statement.ofJson? codec) nesting v).map ofList

end Store

end GraphShapes
