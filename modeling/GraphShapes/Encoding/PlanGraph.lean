import GraphShapes.Encoding.Record
import GraphShapes.PlanGraph

/-!
# Plan graphs in JSON

A record of the labels and the edges; the numbers of shared operators are not written.
-/

namespace GraphShapes.PlanGraph

def edgeToJson (edge : Nat × Nat) : Json := .arr [.nat edge.1, .nat edge.2]

def toJson (g : PlanGraph) : Json :=
  .obj [("nodes", .ofList .str g.nodes.toList), ("edges", .ofList edgeToJson g.edges.toList)]

def edgeOfJson? (codec : Json.Codec := .standard) : Decoder (Nat × Nat)
  | 0, _ => none
  | _ + 1, v =>
    match codec.items? v with
    | some [source, reader] => do return (← codec.nat? source, ← codec.nat? reader)
    | _ => none

def fields : List Json.Field := [⟨"nodes", .required⟩, ⟨"edges", .required⟩]

def ofJson? (codec : Json.Codec := .standard) : Decoder PlanGraph
  | 0, _ => none
  | nesting + 1, v =>
    match codec.record? fields v with
    | some [some nodes, some edges] => do
      return { nodes := (← codec.list? (fun _ label => codec.str? label) nesting nodes).toArray
               edges := (← codec.list? (edgeOfJson? codec) nesting edges).toArray }
    | _ => none

end GraphShapes.PlanGraph
