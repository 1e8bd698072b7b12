/-!
# Plan graphs

A plan is drawn as a graph: one node per operator, numbered in the order of drawing, and one edge
from every input to the operator that reads it. An operator that several others read is drawn
once; `shared` remembers its number under a key. `toDot` writes the graph in the DOT language.
-/

namespace GraphShapes

/-- The operators of a plan and how rows flow between them. -/
structure PlanGraph where
  /-- The labels of the operators in the order of their numbers. -/
  nodes : Array String := #[]
  /-- Pairs of an input and the operator that reads it. -/
  edges : Array (Nat × Nat) := #[]
  /-- The numbers of shared operators by key, the latest entry first. -/
  shared : List (Nat × Nat) := []

namespace PlanGraph

def empty : PlanGraph := {}

def size (g : PlanGraph) : Nat := g.nodes.size

/-- The graph with one more operator over inputs that are drawn already, and its number. -/
def operator (g : PlanGraph) (label : String) (inputs : List Nat) : PlanGraph × Nat :=
  let n := g.size
  ({ g with nodes := g.nodes.push label, edges := g.edges ++ inputs.map (·, n) }, n)

/-- The number of a shared operator. -/
def shared? (g : PlanGraph) (key : Nat) : Option Nat := g.shared.lookup key

/-- The graph that knows a shared operator by a key. -/
def register (g : PlanGraph) (key n : Nat) : PlanGraph := { g with shared := (key, n) :: g.shared }

/-- A character of a label between double quotes. -/
def escape : Char → List Char
  | '\\' => ['\\', '\\']
  | '"' => ['\\', '"']
  | c => [c]

def nodeLine (n : Nat) (label : String) : String :=
  "  n" ++ toString n ++ " [label=\"" ++ String.ofList (label.toList.flatMap escape) ++ "\"];\n"

def edgeLine (edge : Nat × Nat) : String :=
  "  n" ++ toString edge.1 ++ " -> n" ++ toString edge.2 ++ ";\n"

/-- The graph in the DOT language: the operators by number, then the edges. -/
def toDot (g : PlanGraph) : String :=
  "digraph plan \x7b\n  rankdir=BT;\n" ++
    String.join (g.nodes.toList.zipIdx.map fun (label, n) => nodeLine n label) ++
    String.join (g.edges.toList.map edgeLine) ++ "\x7d\n"

end PlanGraph

end GraphShapes
