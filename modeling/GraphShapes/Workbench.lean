import GraphShapes.Cursor.Run
import GraphShapes.Plan.Explain

/-!
# The workbench

A workbench holds plans, cursors and splitters under names over one pool, so that plans can be put
together and read piece by piece. A `Blueprint` describes a plan; building it may take plans of
the workbench away and may read its splitters. What a step that fails has taken stays taken.

After every step the pool is swept: splitters that nothing on the workbench can reach give their
supply up.
-/

namespace GraphShapes

/-- The description of a plan. -/
inductive Blueprint where
  | leaf (plan : Plan)
  | probe (probe : Probe)
  /-- A plan of the workbench, which is taken away. -/
  | taken (name : String)
  /-- A reader of a splitter of the workbench. -/
  | reader (name : String)
  /-- An operator with one input. -/
  | unary (operator : Plan → Plan) (input : Blueprint)
  /-- An operator with two inputs, which it may refuse. -/
  | binary (operator : Plan → Plan → Except OpError Plan) (left right : Blueprint)
  | union (inputs : List Blueprint)
  /-- A plan that is built on demand. Whatever building it reports is reported as a failure to
  read it. -/
  | onDemand (input : Blueprint)

/-- Why a step on the workbench brings nothing. -/
inductive Refusal where
  | noCursor (name : String)
  | noPlan (name : String)
  | noSplitter (name : String)
  | op (failure : OpError)
deriving DecidableEq

def OpError.kind : OpError → String
  | malformed _ => "MalformedShapeTree"
  | unreadable _ => "UpstreamIo"
  | exec _ => "Exec"

namespace Refusal

def kind : Refusal → String
  | op e => e.kind
  | _ => "Missing"

def message : Refusal → String
  | noCursor name => "no cursor " ++ name
  | noPlan name => "no plan " ++ name
  | noSplitter name => "no splitter " ++ name
  | op e => e.message

end Refusal

/-- A splitter under a name. -/
structure Handle where
  splitter : SplitterId
  layout : Layout

/-- Plans, cursors and splitters under names. -/
structure Workbench where
  /-- The pool that they share. -/
  pool : Pool := {}
  plans : List (String × Plan) := []
  cursors : List (String × Cursor) := []
  handles : List (String × Handle) := []
  probes : List String := []

/-- A step on the workbench. -/
abbrev Bench (α : Type) := ExceptT Refusal (StateM Workbench) α

namespace Workbench

/-- The list without the entries of a name. -/
def without {α : Type} (name : String) (entries : List (String × α)) : List (String × α) :=
  entries.filter fun entry => entry.1 ≠ name

/-- The list with an entry, in the place of any entry of that name. -/
def put {α : Type} (name : String) (a : α) (entries : List (String × α)) : List (String × α) :=
  (name, a) :: without name entries

/-- The splitters that something on the workbench reads. -/
def inUse (w : Workbench) : List SplitterId :=
  w.handles.map (fun h => h.2.splitter) ++ w.plans.flatMap (fun p => p.2.readSplitters) ++
    w.cursors.flatMap (fun c => c.2.readSplitters)

/-- The workbench after unreachable splitters have given up. -/
def swept (w : Workbench) : Workbench := { w with pool := w.pool.sweep w.inUse }

/-- The tallies of the producers outside the library that were met. -/
def tallies (w : Workbench) : List (String × Tally) :=
  w.probes.map fun name => (name, w.pool.tally name)

/-- How often the supply of every splitter under a name was opened, and how many rows it has
kept. -/
def buffers (w : Workbench) : List (String × Nat × Nat) :=
  w.handles.map fun (name, h) =>
    match w.pool.splitters[h.splitter]? with
    | some s => (name, s.opens, s.cache.size)
    | none => (name, 0, 0)

end Workbench

namespace Bench

def withPool {α : Type} (use : Pool → Except OpError α × Pool) : Bench α := do
  let w ← get
  let (result, pool) := use w.pool
  set { w with pool := pool }
  match result with
  | .ok a => return a
  | .error e => throw (.op e)

/-- A step that may fail like an operator. -/
def ofOp {α : Type} : Except OpError α → Bench α
  | .ok a => pure a
  | .error e => throw (.op e)

def takePlan (name : String) : Bench Plan := do
  let w ← get
  match w.plans.lookup name with
  | none => throw (.noPlan name)
  | some plan =>
    set { w with plans := Workbench.without name w.plans }
    return plan

/-- A step whose refusal becomes a failure to read. -/
def deferring {α : Type} (step : Bench α) : Bench α :=
  tryCatch step fun refusal => throw (.op (.exec (refusal.kind ++ ": " ++ refusal.message)))

mutual

/-- Builds a plan, its inputs first and from left to right. -/
def build : Blueprint → Bench Plan
  | .leaf plan => return plan
  | .probe p => do
    modify fun w => { w with probes := p.name :: w.probes.filter (· ≠ p.name) }
    return .probe p
  | .taken name => takePlan name
  | .reader name => do
    match (← get).handles.lookup name with
    | none => throw (.noSplitter name)
    | some h => return .reader h.splitter h.layout
  | .unary operator input => return operator (← build input)
  | .binary operator left right => do
    let l ← build left
    let r ← build right
    ofOp (operator l r)
  | .union inputs => do ofOp (Plan.union? (← buildAll inputs))
  | .onDemand input => deferring (build input)

def buildAll : List Blueprint → Bench (List Plan)
  | [] => return []
  | b :: rest => do
    let p ← build b
    return p :: (← buildAll rest)

end

/-- Builds a plan and keeps it under a name. -/
def keep (name : String) (blueprint : Blueprint) : Bench Plan := do
  let plan ← build blueprint
  modify fun w => { w with plans := Workbench.put name plan w.plans }
  return plan

/-- Puts a splitter in front of a plan and keeps it under a name. -/
def split (name : String) (blueprint : Blueprint) : Bench Layout := do
  let plan ← build blueprint
  modify fun w =>
    let (s, pool) := w.pool.share plan
    { w with pool := pool, handles := Workbench.put name ⟨s, plan.layout⟩ w.handles }
  return plan.layout

/-- Forgets a splitter; tells whether there was one. -/
def dropSplitter (name : String) : Bench Bool := do
  let w ← get
  set { w with handles := Workbench.without name w.handles }
  return (w.handles.lookup name).isSome

/-- Forgets a plan; tells whether there was one. -/
def dropPlan (name : String) : Bench Bool := do
  let w ← get
  set { w with plans := Workbench.without name w.plans }
  return (w.plans.lookup name).isSome

/-- Draws plans of the workbench into one graph; gives the numbers of their last operators. -/
def explain : List String → PlanGraph → Bench (PlanGraph × List Nat)
  | [], g => return (g, [])
  | name :: rest, g => do
    let w ← get
    match w.plans.lookup name with
    | none => throw (.noPlan name)
    | some plan =>
      let (g, root) := plan.explain w.pool.waiting? w.pool.splitters.size g
      let (g, roots) ← explain rest g
      return (g, root :: roots)

/-- Opens a plan under a name, perhaps with its next row in view on demand. -/
def openAs (name : String) (lookahead : Bool) (blueprint : Blueprint) : Bench Unit := do
  let plan ← build blueprint
  let c ← withPool fun pool => pool.openPlan plan
  let c := if lookahead then .ahead (.fresh c) else c
  modify fun w => { w with cursors := Workbench.put name c w.cursors }

def collect (blueprint : Blueprint) : Bench (Plan × Except OpError (List Row)) := do
  let plan ← build blueprint
  let rows ← withPool fun pool =>
    let (rows, pool) := pool.collect plan
    (.ok rows, pool)
  return (plan, rows)

def cursor (name : String) : Bench Cursor := do
  match (← get).cursors.lookup name with
  | none => throw (.noCursor name)
  | some c => return c

/-- Uses a cursor of the workbench, which stays there as it is afterwards. -/
def useCursor {α : Type} (name : String) (use : Cursor → Pool → Except OpError α × Cursor × Pool) :
    Bench α := do
  let c ← cursor name
  let w ← get
  let (result, c, pool) := use c w.pool
  set { w with pool := pool, cursors := Workbench.put name c w.cursors }
  ofOp result

/-- Uses the lookahead of a cursor of the workbench; other cursors have none. -/
def useLookahead {α : Type} (name : String)
    (use : Lookahead → Pool → Except OpError α × Lookahead × Pool) : Bench α := do
  match ← cursor name with
  | .ahead l =>
    let w ← get
    let (result, l, pool) := use l w.pool
    set { w with pool := pool, cursors := Workbench.put name (.ahead l) w.cursors }
    ofOp result
  | _ => throw (.noCursor name)

def next (name : String) : Bench (Option Row) := useCursor name Cursor.next

def close (name : String) : Bench Unit :=
  useCursor name fun c pool =>
    let (c, pool) := c.close pool
    (.ok (), c, pool)

/-- Forgets a cursor without closing it. -/
def drop (name : String) : Bench Unit := do
  let _ ← cursor name
  modify fun w => { w with cursors := Workbench.without name w.cursors }

def drain (name : String) : Bench (List Row) := do
  let c ← cursor name
  modify fun w => { w with cursors := Workbench.without name w.cursors }
  withPool c.drain

/-- Shows the next row of a cursor without handing it on. -/
def peek (name : String) : Bench (Option Row) := useLookahead name Lookahead.peek

def fill (name : String) : Bench Unit := useLookahead name Lookahead.fill

def inView (name : String) : Bench (Option Row) :=
  useLookahead name fun l pool => (.ok l.head.row?, l, pool)

/-- Runs a step and sweeps the pool. -/
def run {α : Type} (step : Bench α) (w : Workbench) : Except Refusal α × Workbench :=
  let (result, w) := ExceptT.run step |>.run w
  (result, w.swept)

end Bench

end GraphShapes
