import GraphShapes.Planner.Focus

/-!
# Plans of constraints

The violations of a constraint that judges single values are the rows of rejected values. Any
other constraint judges the values of each target together: its targets are shared between the
scan for values and the count, and only targets are reported.

The violations of a negated constraint are the targets without a violation of the constraint.
-/

namespace GraphShapes

namespace Constraint

/-- Is the row's value rejected? -/
def rejects (c : Constraint) (row : Row) : Bool :=
  match row.value? with
  | some v => !c.accepts v
  | none => false

/-- Plans the violations of the constraint. -/
def violations (ctx : Context) (frame : Frame) (c : Constraint) (targets : Option Provider) :
    Planning Plan := do
  let focus ← ctx.focus frame targets
  if c.isValueLevel then
    return .filter (.valuesOf focus ctx.source frame.path) c.display c.rejects
  else
    let split ← Planning.share focus
    let reader := Plan.reader split focus.layout
    return .countValues reader (.valuesOf reader ctx.source frame.path) c.display
      fun values => c.violatedBy values

/-- Plans the targets without a violation of the constraint. -/
def satisfactions (ctx : Context) (frame : Frame) (c : Constraint) (targets : Option Provider) :
    Planning Plan := do
  let focus ← ctx.focus frame targets
  let split ← Planning.share focus
  let violators ← c.violations ctx frame (some (.splitter split focus.layout))
  return .antiJoin (.reader split focus.layout) violators.distinctTargets

/-- Plans the violations of the constraint, or of its negation, under a shape's number. -/
def plan (ctx : Context) (frame : Frame) (id : ShapeId) (c : Constraint)
    (targets : Option Provider) (negate : Bool) : Planning Plan := do
  if negate then return .tag (← c.satisfactions ctx frame targets) id
  else return .tag (← c.violations ctx frame targets) id

end Constraint

end GraphShapes
