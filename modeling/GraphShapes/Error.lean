import GraphShapes.Row

/-!
# What can go wrong

Failures arise on four layers: in the data that is read (`Error`), while a plan delivers rows
(`OpError`), while a plan is built (`PlanError`), and in a whole validation
pass (`PassError`). Each layer names its causes; each lower failure has one way up, and `message`
gives the wording.
-/

namespace GraphShapes

/-- How a shape tree or a plan can be ill-formed. -/
inductive Malformation where
  | reported (text : String)
  | noMembers (shape : ShapeId)
  | noBranches (shape : ShapeId)
  /-- A disjunction shape with a branch that has no members. -/
  | emptyBranch (shape : ShapeId)
  /-- A disjunction of operands without branches, or with an empty one. -/
  | bareDisjunction
  | emptyUnion
  /-- A union whose input does not have the layout of the first one. -/
  | mixedUnion (first odd : Layout) (name : String)
  /-- An equality join of two layouts. -/
  | unequalJoin (left right : Layout)
  /-- An inner join with an input that is not aggregated. -/
  | joinNeedsAggregated (name : String) (layout : Layout)
deriving DecidableEq

def Malformation.message : Malformation → String
  | reported text => text
  | noMembers shape => shape.display ++ " has no members"
  | noBranches shape => shape.display ++ " has no branches"
  | emptyBranch shape => shape.display ++ " has an empty branch"
  | bareDisjunction => "disjunction needs at least one non-empty branch"
  | emptyUnion => "union over zero inputs"
  | mixedUnion first odd name =>
    "union inputs declare different shapes (" ++ first.name ++ " vs " ++ odd.name ++ " from " ++
      name ++ ")"
  | unequalJoin left right =>
    "equality join over different shapes (" ++ left.name ++ " vs " ++ right.name ++ ")"
  | joinNeedsAggregated name layout =>
    "inner join input " ++ name ++ " is " ++ layout.name ++ ", expected Aggregated"

/-- How a configuration can be unusable. -/
inductive ConfigDefect where
  | reported (text : String)
  /-- No violation may be reported at all. -/
  | zeroCap
deriving DecidableEq

def ConfigDefect.message : ConfigDefect → String
  | reported text => text
  | zeroCap => "max_violations_per_shape must be at least 1"

/-- A failure of the data layer. -/
inductive Error where
  | config (defect : ConfigDefect)
  | malformed (defect : Malformation)
  | unreadable (text : String)
  | hash (text : String)
  | invariant (text : String)
deriving DecidableEq

def Error.message : Error → String
  | config d => "Invalid configuration: " ++ d.message
  | malformed d => "Malformed shape tree: " ++ d.message
  | unreadable t => "Upstream I/O failure: " ++ t
  | hash t => "Hashing error: " ++ t
  | invariant t => "Internal invariant failed: " ++ t

/-- A failure of a plan that is being built from operators or read. -/
inductive OpError where
  | malformed (defect : Malformation)
  | unreadable (text : String)
  | exec (text : String)
deriving DecidableEq

def OpError.message : OpError → String
  | malformed d => "malformed shape tree: " ++ d.message
  | unreadable t => "upstream I/O failure: " ++ t
  | exec t => "execution error: " ++ t

/-- A failure of the data layer as a plan passes it on: its kind survives where a plan knows that
kind, otherwise the whole wording does. -/
def Error.toOp : Error → OpError
  | malformed d => .malformed d
  | unreadable t => .unreadable t
  | e => .exec e.message

/-- A failure to plan a shape. -/
inductive PlanError where
  | malformed (defect : Malformation)
  | op (failure : OpError)
deriving DecidableEq

def PlanError.message : PlanError → String
  | malformed d => "malformed shape tree: " ++ d.message
  | op e => e.message

/-- A failure of the data layer while a shape is planned. -/
def Error.toPlan (e : Error) : PlanError := .op e.toOp

/-- A failure of a validation pass. -/
inductive PassError where
  | config (text : String)
  | unreadableShapes
  | plan (failure : PlanError)
  | operator (failure : OpError)
  | hash (text : String)
deriving DecidableEq

namespace PassError

def message : PassError → String
  | config t => "invalid configuration: " ++ t
  | unreadableShapes => "invalid configuration: not a list of node shapes"
  | plan e => "planning: " ++ e.message
  | operator e => "operator exec: " ++ e.message
  | hash t => "hashing error: " ++ t

/-- Whether the shape tree breaks a structural rule, so that no pass over it can succeed. -/
def isMalformed : PassError → Bool
  | plan (.malformed _) => true
  | plan (.op (.malformed _)) => true
  | operator (.malformed _) => true
  | _ => false

end PassError

end GraphShapes
