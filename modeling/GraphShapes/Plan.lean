import GraphShapes.Shape

/-!
# Plans

A plan is a tree of operators that deliver rows. Its leaves hold rows, scan for targets, or read
from a *splitter*: a numbered place where the rows of another plan, its supply, are kept for any
number of readers. The supplies belong to the plan's surroundings (`Splitters`); the supply of
a splitter mentions only splitters with smaller numbers.

Every operator declares a layout. The operators that need inputs of one layout are built by
`union?`, `equalsJoin?` and `innerJoin?`, which refuse others.
-/

namespace GraphShapes

/-- The number of a splitter. -/
abbrev SplitterId := Nat

/-- Which targets a scan delivers. -/
inductive TargetMode where
  | all
  /-- The selected targets that a commit may affect: those whose selection it bears on, and those
  with a changed statement on the path. -/
  | affected (delta : Delta) (path : Option Path)

/-- A scan for targets. -/
structure TargetScan where
  source : Source
  targets : List Target
  /-- Which of the selected targets are delivered. -/
  mode : TargetMode

/-- A leaf with given rows in a given order whose use is counted under a name, and which may refuse
to open or break off. It stands for a producer outside the library. -/
structure Probe where
  /-- The name under which opening, pulling and closing are counted. -/
  name : String
  rows : List Row
  layout : Layout
  /-- The failure of opening it, if it cannot be opened. -/
  refusal : Option OpError := none
  /-- After how many rows it breaks off, and how. -/
  breakOff : Option (Nat × OpError) := none

/-- A tree of operators. -/
inductive Plan where
  | empty (layout : Layout)
  /-- Delivers rows that are sorted already. -/
  | values (rows : List Row) (layout : Layout)
  /-- Delivers the rows of a producer outside the library. -/
  | probe (probe : Probe)
  | targetScan (scan : TargetScan)
  | reader (splitter : SplitterId) (layout : Layout)
  /-- Replaces every target by its values along a path, or by itself without one. -/
  | valuesOf (targets : Plan) (source : Source) (path : Option Path)
  /-- Keeps the targets whose values, taken together, pass a test. -/
  | countValues (targets values : Plan) (label : String) (test : List Term → Bool)
  | filter (input : Plan) (label : String) (keep : Row → Bool)
  /-- Cuts every row to its first columns. -/
  | trim (input : Plan) (width : Nat)
  | sort (input : Plan)
  /-- Drops rows whose columns, or first columns, have occurred before. -/
  | unique (input : Plan) (width : Option Nat)
  | union (inputs : List Plan)
  /-- Puts a shape on the trace of every row. -/
  | tag (input : Plan) (shape : ShapeId)
  /-- Declares another layout for the same rows. -/
  | relabel (input : Plan) (layout : Layout)
  /-- Joins rows with equal columns, or with equal targets. -/
  | equalsJoin (left right : Plan) (allColumns : Bool)
  /-- Delivers the targets that both inputs have. -/
  | innerJoin (left right : Plan)
  /-- Delivers the rows of the left input whose target the right input does not have. -/
  | antiJoin (left right : Plan)

/-- The supply plans of the splitters, by number. -/
abbrev Splitters := Array Plan

namespace Plan

def name : Plan → String
  | empty _ => "Empty"
  | values .. => "Values"
  | probe _ => "Scripted"
  | targetScan _ => "TargetScan"
  | reader .. => "BufferedSplitter"
  | valuesOf .. => "ValuesOf"
  | countValues .. => "CountValues"
  | filter .. => "Filter"
  | trim .. => "TrimTuple"
  | sort _ => "Sort"
  | unique .. => "Unique"
  | union _ => "Union"
  | tag .. => "EnrichWithShape"
  | relabel .. => "ShapeOverride"
  | equalsJoin .. => "EqualsJoin"
  | innerJoin .. => "InnerJoin"
  | antiJoin .. => "AntiJoin"

def layout : Plan → Layout
  | empty l => l
  | values _ l => l
  | probe p => p.layout
  | targetScan _ => .aggregated
  | reader _ l => l
  | valuesOf _ _ path => if path.isSome then .tripleBased else .aggregated
  | countValues .. => .aggregated
  | filter input _ _ => input.layout
  | trim input width => if width < 3 then .aggregated else input.layout
  | sort input => input.layout
  | unique input _ => input.layout
  | union (first :: _) => first.layout
  | union [] => .aggregated
  | tag input _ => input.layout
  | relabel _ l => l
  | equalsJoin left _ _ => left.layout
  | innerJoin .. => .aggregated
  | antiJoin left _ => left.layout

/-- The leaf that delivers given rows in ascending order; equal rows keep their order. -/
def ofRows (rows : List Row) (layout : Layout) : Plan :=
  values (Ordered.sort Row.compare rows) layout

/-- Cuts rows to at least the target. -/
def trimTo (input : Plan) (width : Nat) : Plan := trim input (max width 1)

/-- Drops rows whose first columns, at least the target, have occurred before. -/
def uniqueOn (input : Plan) (width : Nat) : Plan := unique input (some (max width 1))

/-- The distinct targets of a plan. -/
def distinctTargets (input : Plan) : Plan := unique (trimTo input 1) none

/-- The union of inputs of one layout. -/
def union? : List Plan → Except OpError Plan
  | [] => .error (.malformed .emptyUnion)
  | first :: rest =>
    match rest.find? fun p => p.layout ≠ first.layout with
    | some odd => .error (.malformed (.mixedUnion first.layout odd.layout odd.name))
    | none => .ok (union (first :: rest))

/-- The equality join of inputs of one layout. -/
def equalsJoin? (left right : Plan) (allColumns : Bool) : Except OpError Plan :=
  if left.layout = right.layout then .ok (equalsJoin left right allColumns)
  else .error (.malformed (.unequalJoin left.layout right.layout))

/-- The inner join of aggregated inputs. -/
def innerJoin? (left right : Plan) : Except OpError Plan :=
  match [left, right].find? fun p => p.layout ≠ .aggregated with
  | some odd => .error (.malformed (.joinNeedsAggregated odd.name odd.layout))
  | none => .ok (innerJoin left right)

end Plan

end GraphShapes
