import GraphShapes.Plan.Explain
import GraphShapes.Planner.Context

/-!
# Planning

Planning allots splitters, reports finished plans and may fail. What it has done so far (`Draft`)
survives a failure: reports are not taken back.

A shape is planned for the targets that its node shape selects, or for targets that a `Provider`
hands out. A provider can be asked any number of times and hands out the same targets again.
-/

namespace GraphShapes

/-- The plan of a combinator shape as it is reported. -/
structure PlanReport where
  shape : ShapeId
  label : String
  /-- The plan in the DOT language. -/
  dot : String

/-- What planning has done so far. -/
structure Draft where
  /-- The supplies of the splitters that were allotted. -/
  splitters : Splitters := #[]
  /-- The plans that were reported. -/
  reports : Array PlanReport := #[]
  /-- How often a provider from outside was asked. -/
  requests : Nat := 0

/-- A planning step. -/
abbrev Planning (α : Type) := ExceptT PlanError (StateM Draft) α

/-- Hands out a set of targets any number of times. -/
inductive Provider where
  /-- Readers of a splitter. -/
  | splitter (id : SplitterId) (layout : Layout)
  /-- A producer from outside, which may refuse. -/
  | external (answer : Except OpError Plan)

namespace Planning

/-- A step that may fail like an operator. -/
def ofOp {α : Type} : Except OpError α → Planning α
  | .ok a => pure a
  | .error e => throw (.op e)

/-- A step that may fail like the data layer. -/
def ofError {α : Type} : Except Error α → Planning α
  | .ok a => pure a
  | .error e => throw e.toPlan

/-- Allots a splitter with the given supply. -/
def share (supply : Plan) : Planning SplitterId := do
  let draft ← get
  set { draft with splitters := draft.splitters.push supply }
  return draft.splitters.size

/-- Reports the plan of a shape if the settings ask for it. -/
def report (ctx : Context) (shape : Shape) (plan : Plan) : Planning Unit :=
  if ctx.config.printPlans then
    modify fun draft => { draft with
      reports := draft.reports.push ⟨shape.id, shape.display, (plan.graph draft.splitters).toDot⟩ }
  else pure ()

end Planning

/-- A fresh plan over the targets that a provider hands out. -/
def Provider.request : Provider → Planning Plan
  | splitter id layout => pure (.reader id layout)
  | external answer => do
    modify fun draft => { draft with requests := draft.requests + 1 }
    Planning.ofOp answer

end GraphShapes
