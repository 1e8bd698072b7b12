import GraphShapes.Encoding.Row
import GraphShapes.Shape

/-!
# Shapes in JSON

A shape is a record of its number, its switch, its path and its kind, the kind being a choice. A
document of shapes is a list of node shapes.
-/

namespace GraphShapes

namespace Path

def toJson : Path → Json
  | predicate p => .ofCase "Predicate" p.toJson
  | inverse p => .ofCase "Inverse" p.toJson

def ofJson? (codec : Json.Codec := .standard) : Decoder Path
  | 0, _ => none
  | nesting + 1, v =>
    match codec.case? v with
    | some ("Predicate", content) => (Term.ofJson? codec nesting content).map predicate
    | some ("Inverse", content) => (Term.ofJson? codec nesting content).map inverse
    | _ => none

end Path

namespace Target

def toJson : Target → Json
  | instancesOf c => .ofCase "Class" c.toJson
  | nodes listed => .ofCase "Node" (.ofList Term.toJson listed)
  | subjectsOf p => .ofCase "SubjectsOf" p.toJson
  | objectsOf p => .ofCase "ObjectsOf" p.toJson

def ofJson? (codec : Json.Codec := .standard) : Decoder Target
  | 0, _ => none
  | nesting + 1, v =>
    match codec.case? v with
    | some ("Class", content) => (Term.ofJson? codec nesting content).map instancesOf
    | some ("Node", content) => (codec.list? (Term.ofJson? codec) nesting content).map nodes
    | some ("SubjectsOf", content) => (Term.ofJson? codec nesting content).map subjectsOf
    | some ("ObjectsOf", content) => (Term.ofJson? codec nesting content).map objectsOf
    | _ => none

end Target

namespace Constraint

def toJson : Constraint → Json
  | datatype kind => .ofCase "Datatype" kind.toJson
  | oneOf allowed => .ofCase "In" (.ofList Term.toJson allowed)
  | hasValue wanted => .ofCase "HasValue" wanted.toJson
  | minCount bound => .ofCase "MinCount" (.word bound)
  | maxCount bound => .ofCase "MaxCount" (.word bound)

def ofJson? (codec : Json.Codec := .standard) : Decoder Constraint
  | 0, _ => none
  | nesting + 1, v =>
    match codec.case? v with
    | some ("Datatype", content) => (TermKind.ofJson? codec nesting content).map datatype
    | some ("In", content) => (codec.list? (Term.ofJson? codec) nesting content).map oneOf
    | some ("HasValue", content) => (Term.ofJson? codec nesting content).map hasValue
    | some ("MinCount", content) => (codec.word? content).map minCount
    | some ("MaxCount", content) => (codec.word? content).map maxCount
    | _ => none

end Constraint

def Path.optionToJson (path : Option Path) : Json := .ofOption (path.map toJson)

namespace Shape

/-- A shape in JSON, given its kind in JSON. -/
def record (h : ShapeHead) (kind : Json) : Json :=
  .obj [("id", h.id.toJson), ("deactivated", .bool h.deactivated),
    ("path", Path.optionToJson h.path), ("kind", kind)]

mutual

def toJson : Shape → Json
  | constraint h c => record h (.ofCase "Constraint" c.toJson)
  | conj h members => record h (.ofCase "And" (.arr (listToJson members)))
  | disj h branches => record h (.ofCase "Or" (.arr (branchesToJson branches)))
  | neg h inner => record h (.ofCase "Not" inner.toJson)

def listToJson : List Shape → List Json
  | [] => []
  | s :: rest => s.toJson :: listToJson rest

def branchesToJson : List (List Shape) → List Json
  | [] => []
  | b :: rest => .arr (listToJson b) :: branchesToJson rest

end

def fields : List Json.Field :=
  [⟨"id", .required⟩, ⟨"deactivated", .required⟩, ⟨"path", .optional⟩, ⟨"kind", .required⟩]

mutual

def ofJson? (codec : Json.Codec := .standard) : Nat → Json → Option Shape
  | 0, _ => none
  | nesting + 1, v =>
    match codec.record? fields v with
    | some [some id, some deactivated, path, some kind] => do
      let h : ShapeHead :=
        { id := ← ShapeId.ofJson? codec nesting id
          deactivated := ← codec.bool? deactivated
          path := ← codec.optional? (Path.ofJson? codec nesting) path }
      kindOfJson? codec h nesting kind
    | _ => none

def kindOfJson? (codec : Json.Codec) (h : ShapeHead) : Nat → Json → Option Shape
  | 0, _ => none
  | nesting + 1, v =>
    match codec.case? v with
    | some ("Constraint", content) => (Constraint.ofJson? codec nesting content).map (constraint h)
    | some ("And", content) => (listOfJson? codec nesting content).map (conj h)
    | some ("Or", content) => (branchesOfJson? codec nesting content).map (disj h)
    | some ("Not", content) => (ofJson? codec nesting content).map (neg h)
    | _ => none

def listOfJson? (codec : Json.Codec := .standard) : Nat → Json → Option (List Shape)
  | 0, _ => none
  | nesting + 1, v => (codec.items? v).bind fun items => items.mapM (ofJson? codec nesting)

def branchesOfJson? (codec : Json.Codec) : Nat → Json → Option (List (List Shape))
  | 0, _ => none
  | nesting + 1, v => (codec.items? v).bind fun items => items.mapM (listOfJson? codec nesting)

end

end Shape

namespace NodeShape

def toJson (node : NodeShape) : Json :=
  .obj [("id", node.id.toJson), ("targets", .ofList Target.toJson node.targets),
    ("deactivated", .bool node.deactivated), ("shapes", .ofList Shape.toJson node.shapes)]

def fields : List Json.Field :=
  [⟨"id", .required⟩, ⟨"targets", .required⟩, ⟨"deactivated", .required⟩, ⟨"shapes", .required⟩]

def ofJson? (codec : Json.Codec := .standard) : Decoder NodeShape
  | 0, _ => none
  | nesting + 1, v =>
    match codec.record? fields v with
    | some [some id, some targets, some deactivated, some shapes] => do
      return { id := ← ShapeId.ofJson? codec nesting id
               targets := ← codec.list? (Target.ofJson? codec) nesting targets
               deactivated := ← codec.bool? deactivated
               shapes := ← Shape.listOfJson? codec nesting shapes }
    | _ => none

def listToJson (nodes : List NodeShape) : Json := .ofList toJson nodes

def listOfJson? (codec : Json.Codec := .standard) : Decoder (List NodeShape) :=
  codec.list? (ofJson? codec)

end NodeShape

end GraphShapes
