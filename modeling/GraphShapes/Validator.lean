import GraphShapes.Plan.Conditions
import GraphShapes.Plan.Meaning
import GraphShapes.Planner
import GraphShapes.Report

/-!
# Validation passes

A pass goes through the node shapes and their top-level shapes in order. It passes over a shape
that is switched off, or that the delta of the pass cannot bear on; it plans any other shape and
reads the violations off the plan, up to the cap of the settings. With `failFast` the first shape
with a violation ends the pass.

The first failure ends the pass without a report; plans that were reported before it stand.

A pass may be run under `Conditions`. Each check of what the delta can bear on, the planning of each
shape, and each leaf of its plan are occasions of their own, numbered by the steps that lead there.
-/

namespace GraphShapes

/-- What a pass knows about itself: its identifier, and when it begins and ends. -/
structure PassStamp where
  id : Uuid := .nil
  /-- When the pass begins, in milliseconds. -/
  startedMs : UInt64 := 0
  /-- When the pass ends, in milliseconds. -/
  finishedMs : UInt64 := 0

/-- Shapes and settings that can be validated with. -/
structure Validator where
  /-- The node shapes in order. -/
  shapes : List NodeShape
  config : Config
  shapesHash : Digest

/-- A step of a pass: it may fail, and collects the plans that are reported. -/
abbrev Pass (α : Type) := ExceptT PassError (StateM (Array PlanReport)) α

/-- What a pass has found so far. -/
structure Findings where
  violations : List Violation := []
  /-- The shapes with more violations than are reported. -/
  truncated : List ShapeId := []
  /-- How many shapes were planned and read. -/
  evaluated : Nat := 0
  /-- How many shapes were passed over. -/
  skipped : Nat := 0

namespace Findings

/-- The findings of two parts of a pass, one after the other. -/
def append (a b : Findings) : Findings where
  violations := a.violations ++ b.violations
  truncated := a.truncated ++ b.truncated
  evaluated := a.evaluated + b.evaluated
  skipped := a.skipped + b.skipped

def skip (shapes : Nat) : Findings := { skipped := shapes }

/-- The findings of a top-level shape of whose plan these rows were read; the flag tells whether
there are more. -/
def ofRows (node : NodeShape) (shape : Shape) (read : List Row × Bool) : Findings where
  violations := read.1.map (.ofRow node.id shape)
  truncated := if read.2 then [shape.id] else []
  evaluated := 1

end Findings

namespace Pass

/-- A step that may fail like the data layer while it decides what to plan. -/
def ofError {α : Type} : Except Error α → Pass α
  | .ok a => pure a
  | .error e => throw (.plan e.toPlan)

/-- A step that reads a plan. -/
def ofOp {α : Type} : Except OpError α → Pass α
  | .ok a => pure a
  | .error e => throw (.operator e)

/-- A planning step from nothing, whose reports are collected; gives the result and the splitters
that it allotted. -/
def ofPlanning {α : Type} (step : Planning α) : Pass (α × Splitters) := do
  let (result, draft) := step.run.run {}
  modify (· ++ draft.reports)
  match result with
  | .ok a => return (a, draft.splitters)
  | .error e => throw (.plan e)

end Pass

namespace Validator

/-- The rows of a plan, at most as many as the cap allows, and whether there are more. -/
def readUpTo (cap : Option UInt64) (feed : RowFeed) : Except OpError (List Row × Bool) :=
  match cap with
  | some n => feed.takeUpTo n.toNat
  | none => feed.toExcept.map (·, false)

/-- Plans one top-level shape and reads its violations. -/
def evaluate (config : Config) (ctx : Context) (node : NodeShape) (shape : Shape)
    (conditions : Conditions := .constant) : Pass Findings := do
  let planning := shape.plan (ctx.during (conditions.part 0)) (.root node) none false
  let (plan, splitters) ← Pass.ofPlanning planning
  match plan with
  | none => return .skip 1
  | some plan =>
    let plan := plan.during (conditions.part 1)
    let feed ← Pass.ofOp (plan.feedIn (splitters.during (conditions.part 2)))
    return .ofRows node shape (← Pass.ofOp (readUpTo config.maxViolationsPerShape feed))

/-- Evaluates a top-level shape unless the delta of the pass cannot bear on it. -/
def examine (config : Config) (ctx : Context) (node : NodeShape) (shape : Shape)
    (conditions : Conditions := .constant) : Pass Findings := do
  match ctx.restriction with
  | none => evaluate config ctx node shape (conditions.part 1)
  | some delta => do
    if ← Pass.ofError (shape.touched (delta.during (conditions.part 0)) (.root node)) then
      evaluate config ctx node shape (conditions.part 1)
    else return .skip 1

/-- Do the findings end the pass? -/
def ends (config : Config) (found : Findings) : Bool :=
  config.failFast && !found.violations.isEmpty

/-- Examines top-level shapes in order, until one ends the pass. Gives the findings, and whether
the pass goes on. -/
def examineAll (config : Config) (ctx : Context) (node : NodeShape) :
    List Shape → (conditions : Conditions := .constant) → Pass (Findings × Bool)
  | [], _ => return ({}, true)
  | shape :: rest, conditions => do
    let found ← examine config ctx node shape (conditions.part 0)
    if ends config found then return (found, false)
    let (later, goesOn) ← examineAll config ctx node rest (conditions.part 1)
    return (found.append later, goesOn)

/-- Can anything in the pass bear on the node shape? -/
def nodeTouched (ctx : Context) (node : NodeShape) (conditions : Conditions := .constant) :
    Except Error Bool :=
  match ctx.restriction with
  | none => .ok true
  | some delta => node.touched (delta.during conditions)

/-- Goes through node shapes in order, until one ends the pass. -/
def examineNodes (config : Config) (ctx : Context) :
    List NodeShape → (conditions : Conditions := .constant) → Pass Findings
  | [], _ => return {}
  | node :: rest, conditions => do
    let touched ←
      if node.deactivated then pure false
      else Pass.ofError (nodeTouched ctx node (conditions.part 0))
    if touched then
      let (found, goesOn) ← examineAll config ctx node node.shapes (conditions.part 1)
      if goesOn then return found.append (← examineNodes config ctx rest (conditions.part 2))
      return found
    else
      let later ← examineNodes config ctx rest (conditions.part 2)
      return (Findings.skip node.shapes.length).append later

def run (v : Validator) (ctx : Context) (stamp : PassStamp)
    (conditions : Conditions := .constant) : Pass Report := do
  let found ← examineNodes v.config ctx v.shapes conditions
  let manifest := Manifest.start stamp.id v.shapesHash stamp.startedMs
  let manifest := { manifest with
    evaluated := found.evaluated
    skipped := found.skipped
    violations := found.violations.length }
  return { violations := found.violations
           truncated := found.truncated
           manifest := manifest.finish stamp.finishedMs }

/-- Validates every target in a source. -/
def validateAll (v : Validator) (source : Source) (stamp : PassStamp := {})
    (conditions : Conditions := .constant) : Pass Report :=
  v.run (.bulk source v.config) stamp conditions

/-- Validates a pending commit: the targets that it may affect, or every target if the settings
ask for that. -/
def validate (v : Validator) (tx : Transaction) (stamp : PassStamp := {})
    (conditions : Conditions := .constant) : Pass Report :=
  v.run (.incremental tx v.config) stamp conditions

/-! ## Under constant conditions -/

section Constant

variable (config : Config) (ctx : Context) (node : NodeShape)

theorem evaluate_constant (shape : Shape) : evaluate config ctx node shape = (do
    let (plan, splitters) ← Pass.ofPlanning (shape.plan ctx (.root node) none false)
    match plan with
    | none => return .skip 1
    | some plan =>
      let feed ← Pass.ofOp (plan.feedIn splitters)
      return .ofRows node shape (← Pass.ofOp (readUpTo config.maxViolationsPerShape feed))) := by
  simp only [evaluate, Conditions.part_constant, Context.during_constant, Plan.during_constant,
    Splitters.during_constant]

theorem examine_constant (shape : Shape) : examine config ctx node shape =
    match ctx.restriction with
    | none => evaluate config ctx node shape
    | some delta => do
      if ← Pass.ofError (shape.touched delta (.root node)) then evaluate config ctx node shape
      else return .skip 1 := rfl

theorem examineAll_cons (shape : Shape) (rest : List Shape) :
    examineAll config ctx node (shape :: rest) = (do
      let found ← examine config ctx node shape
      if ends config found then return (found, false)
      let (later, goesOn) ← examineAll config ctx node rest
      return (found.append later, goesOn)) := rfl

theorem nodeTouched_constant : nodeTouched ctx node =
    match ctx.restriction with
    | none => .ok true
    | some delta => node.touched delta := rfl

theorem examineNodes_cons (rest : List NodeShape) :
    examineNodes config ctx (node :: rest) = (do
      let touched ← if node.deactivated then pure false else Pass.ofError (nodeTouched ctx node)
      if touched then
        let (found, goesOn) ← examineAll config ctx node node.shapes
        if goesOn then return found.append (← examineNodes config ctx rest)
        return found
      else
        return (Findings.skip node.shapes.length).append (← examineNodes config ctx rest)) := rfl

end Constant

/-- The outcome of a pass, and the plans that it reported. -/
def outcome (pass : Pass Report) : Except PassError Report × Array PlanReport :=
  pass.run.run #[]

end Validator

end GraphShapes
