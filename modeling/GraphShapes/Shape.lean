import GraphShapes.Constraint
import GraphShapes.Path
import GraphShapes.ShapeId
import GraphShapes.Target

/-!
# Shape trees

A shape is a tree of demands on a target: constraints at the leaves, combined by conjunction,
disjunction of branches (each branch a conjunction of its members) and negation. Every node has
an identifier, may be switched off together with everything below it, and may set the path along
which the values below it are found. A `NodeShape` joins top-level shapes with the selectors of
their targets.
-/

namespace GraphShapes

/-- What every node of a shape tree has. -/
structure ShapeHead where
  id : ShapeId
  /-- Whether the node and everything below it is switched off. -/
  deactivated : Bool := false
  /-- The path of the node; without one it inherits the path from above. -/
  path : Option Path := none
deriving DecidableEq

/-- A tree of demands on a target. -/
inductive Shape where
  /-- A demand on the values along the effective path. -/
  | constraint (head : ShapeHead) (demand : Constraint)
  /-- All members hold. -/
  | conj (head : ShapeHead) (members : List Shape)
  /-- All members of some branch hold. -/
  | disj (head : ShapeHead) (branches : List (List Shape))
  /-- The inner shape does not hold. -/
  | neg (head : ShapeHead) (inner : Shape)

namespace Shape

def head : Shape → ShapeHead
  | constraint h _ => h
  | conj h _ => h
  | disj h _ => h
  | neg h _ => h

def id (s : Shape) : ShapeId := s.head.id

def deactivated (s : Shape) : Bool := s.head.deactivated

def path? (s : Shape) : Option Path := s.head.path

/-- Does the shape set a path that differs from the one it would inherit? -/
def hasOwnPath (inherited : Option Path) (s : Shape) : Bool :=
  match s.path? with
  | some own => inherited ≠ some own
  | none => false

def children : Shape → List Shape
  | constraint .. => []
  | conj _ members => members
  | disj _ branches => branches.flatten
  | neg _ inner => [inner]

/-- The rule that a violation of the shape is reported under. -/
def component : Shape → Component
  | constraint _ c => c.component
  | conj .. => .conj
  | disj .. => .disj
  | neg .. => .neg

/-- What stands before the body of a shape in labels: the switch and the own path. -/
def preamble (h : ShapeHead) : String :=
  (if h.deactivated then "~" else "") ++
    (match h.path with
      | some p => p.display ++ ":"
      | none => "")

mutual

def display : Shape → String
  | constraint h c => preamble h ++ c.display
  | conj h members => preamble h ++ "and(" ++ ", ".intercalate (displayAll members) ++ ")"
  | disj h branches => preamble h ++ "or(" ++ " | ".intercalate (displayBranches branches) ++ ")"
  | neg h inner => preamble h ++ "not(" ++ inner.display ++ ")"

def displayAll : List Shape → List String
  | [] => []
  | s :: rest => s.display :: displayAll rest

def displayBranches : List (List Shape) → List String
  | [] => []
  | b :: rest => ", ".intercalate (displayAll b) :: displayBranches rest

end

end Shape

/-- A selection of targets and the shapes that they must satisfy. -/
structure NodeShape where
  id : ShapeId
  /-- The selectors, whose selections are united. -/
  targets : List Target
  /-- Whether the whole node shape is switched off. -/
  deactivated : Bool := false
  shapes : List Shape

end GraphShapes
