import GraphShapes.Planner.Combine
import GraphShapes.Planner.Leaf
import GraphShapes.Planner.Touched

/-!
# Planning shapes

The plan of a shape delivers its violations, or those of its negation. Negation moves down the
tree while planning: a negated conjunction is a disjunction of negated members, a negated
disjunction a conjunction of negated branches, and only constraints are negated as such.

An `Operand` is a part of a conjunction or disjunction as it is written down: a shape, perhaps
negated, or the negation of a branch.
-/

namespace GraphShapes

namespace Shape

/-- Puts the number of a combinator on its plan and reports the plan. -/
def finish (ctx : Context) (shape : Shape) : Option Plan → Planning (Option Plan)
  | none => return none
  | some p => do
    let plan := Plan.tag p shape.id
    Planning.report ctx shape plan
    return some plan

/-- The shape as a part of a conjunction, given how it is planned. -/
def plannedBy (s : Shape) (plan : Frame → Option Provider → Planning (Option Plan)) : Member where
  plan := plan
  hasOwnPath := fun inherited => s.hasOwnPath inherited
  touched := fun frame delta => s.touched delta frame

mutual

/-- Plans the violations of the shape, or of its negation, for the targets of a provider or of the
node shape. A shape that is switched off has no plan. -/
def plan (ctx : Context) :
    Shape → Frame → Option Provider → Bool → Planning (Option Plan)
  | constraint h c, frame, targets, negate => do
    if h.deactivated then return none
    return some (← c.plan ctx (frame.within h.path) h.id targets negate)
  | conj h ms, frame, targets, negate => do
    if h.deactivated then return none
    if ms.isEmpty then throw (.malformed (.noMembers h.id))
    if negate then
      finish ctx (conj h ms)
        (← Member.disjunction ctx (frame.within h.path)
          ((members ctx true ms).map fun m => [m]) targets)
    else
      finish ctx (conj h ms)
        (← Member.conjunction ctx (frame.within h.path) (members ctx false ms) targets)
  | disj h bs, frame, targets, negate => do
    if h.deactivated then return none
    if bs.isEmpty then throw (.malformed (.noBranches h.id))
    if bs.any List.isEmpty then throw (.malformed (.emptyBranch h.id))
    if negate then
      finish ctx (disj h bs)
        (← Member.conjunction ctx (frame.within h.path)
          ((branchMembers ctx true bs).map (Member.negatedBranch ctx)) targets)
    else
      finish ctx (disj h bs)
        (← Member.disjunction ctx (frame.within h.path) (branchMembers ctx false bs) targets)
  | neg h inner, frame, targets, negate => do
    if h.deactivated then return none
    finish ctx (neg h inner) (← inner.plan ctx (frame.within h.path) targets (!negate))

/-- Shapes as parts of a conjunction, negated or not. -/
def members (ctx : Context) (negate : Bool) : List Shape → List Member
  | [] => []
  | s :: rest =>
    s.plannedBy (fun frame targets => s.plan ctx frame targets negate) :: members ctx negate rest

/-- The shapes of several branches as parts of conjunctions, negated or not. -/
def branchMembers (ctx : Context) (negate : Bool) : List (List Shape) → List (List Member)
  | [] => []
  | b :: rest => members ctx negate b :: branchMembers ctx negate rest

end

/-- The shape, or its negation, as a part of a conjunction. -/
def member (ctx : Context) (negate : Bool) (s : Shape) : Member :=
  s.plannedBy fun frame targets => s.plan ctx frame targets negate

end Shape

/-- A part of a conjunction or disjunction. -/
inductive Operand where
  /-- A shape, perhaps negated. -/
  | shape (shape : Shape) (negate : Bool)
  /-- The negation of a branch. -/
  | negatedBranch (members : List Shape)

namespace Operand

/-- What planning has to know of an operand. -/
def member (ctx : Context) : Operand → Member
  | shape s negate => s.member ctx negate
  | negatedBranch ms => .negatedBranch ctx (Shape.members ctx true ms)

/-- Does the operand set a path other than the one it would inherit? -/
def hasOwnPath (inherited : Option Path) : Operand → Bool
  | shape s _ => s.hasOwnPath inherited
  | negatedBranch ms => ms.any fun m => m.hasOwnPath inherited

/-- Can the delta bear on the operand? -/
def touched (delta : Delta) (frame : Frame) : Operand → Except Error Bool
  | shape s _ => s.touched delta frame
  | negatedBranch ms => Shape.anyTouched delta ms frame

def display : Operand → String
  | shape s false => s.id.display
  | shape s true => "not " ++ s.id.display
  | negatedBranch ms => "not [" ++ ", ".intercalate (ms.map fun m => m.id.display) ++ "]"

/-- Plans the violations of any operand. -/
def conjunction (ctx : Context) (frame : Frame) (operands : List Operand)
    (targets : Option Provider) : Planning (Option Plan) :=
  Member.conjunction ctx frame (operands.map (member ctx)) targets

/-- Plans the violations of every branch of operands. -/
def disjunction (ctx : Context) (frame : Frame) (branches : List (List Operand))
    (targets : Option Provider) : Planning (Option Plan) :=
  Member.disjunction ctx frame (branches.map fun b => b.map (member ctx)) targets

end Operand

end GraphShapes
