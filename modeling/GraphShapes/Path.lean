import GraphShapes.Store

/-!
# Paths

A path leads from a target to its values over one predicate: forwards to the objects, or
backwards to the subjects of the statements that the target takes part in.
-/

namespace GraphShapes

/-- How values are reached from a target. -/
inductive Path where
  /-- To the objects of the target's statements with this predicate. -/
  | predicate (relation : Term)
  /-- To the subjects of the statements with this predicate about the target. -/
  | inverse (relation : Term)
deriving DecidableEq

namespace Path

def relation : Path → Term
  | predicate p => p
  | inverse p => p

/-- Does the path lead from objects to subjects? -/
def isInverse : Path → Bool
  | predicate _ => false
  | inverse _ => true

/-- The end of a statement at which the path starts. -/
def focusOf : Path → Statement → Term
  | predicate _, st => st.subject
  | inverse _, st => st.object

/-- The end of a statement to which the path leads. -/
def valueOf : Path → Statement → Term
  | predicate _, st => st.object
  | inverse _, st => st.subject

/-- The statements that lead along the path from a target. -/
def pattern : Path → Term → Pattern
  | predicate p, focus => ⟨some focus, some p, none⟩
  | inverse p, focus => ⟨none, some p, some focus⟩

def display : Path → String
  | predicate p => p.display
  | inverse p => "^" ++ p.display

end Path

end GraphShapes
