import GraphShapes.Manifest
import GraphShapes.Shape

/-!
# Violations and reports
-/

namespace GraphShapes

/-- One violation: a target, with the offending value and its statement if the plan kept them. -/
structure Violation where
  focus : Term
  value : Option Term
  /-- The statement that leads to the value. -/
  provenance : Option Statement
  scope : Scope
  /-- The node shape whose selectors picked the target. -/
  nodeShape : ShapeId
  /-- The top-level shape that is violated. -/
  sourceShape : ShapeId
  component : Component
  /-- The shapes that the row passed through, innermost first. -/
  trace : List ShapeId
deriving DecidableEq

/-- The violation that a row of a shape's plan stands for. -/
def Violation.ofRow (nodeShape : ShapeId) (shape : Shape) (row : Row) : Violation where
  focus := row.target
  value := row.value?
  provenance := row.provenance?
  scope := row.scope
  nodeShape := nodeShape
  sourceShape := shape.id
  component := shape.component
  trace := row.trace

/-- What a validation pass found. -/
structure Report where
  /-- The violations in the order in which they were found. -/
  violations : List Violation
  /-- The shapes with more violations than are reported. -/
  truncated : List ShapeId
  manifest : Manifest

namespace Report

def conforms (r : Report) : Bool := r.violations.isEmpty

/-- The violations of one top-level shape. -/
def forShape (r : Report) (shape : ShapeId) : List Violation :=
  r.violations.filter fun v => v.sourceShape = shape

end Report

end GraphShapes
