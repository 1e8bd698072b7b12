import GraphShapes.Cursor.Open

/-!
# Steps of cursors

A step does one small thing: it takes a row out of an input, looks at one, or hands one on. A step
that fails closes the whole operator before it reports the failure. There is no loop in a step:
an operator that needs more of its input reports that it is busy and is asked again.
-/

namespace GraphShapes

/-- What a step brings, the cursor after it, and the pool after it. -/
abbrev Cursor.Step := Outcome × Cursor × Pool

/-- The step that fails: the operator is closed, then the failure is reported. -/
def Cursor.failing (failure : OpError) (c : Cursor) (pool : Pool) : Cursor.Step :=
  let (c, pool) := c.close pool
  (.failed failure, c, pool)

/-- The first row in hand, and the cursor of the others. -/
def Cursor.deliver (rows : List Row) (rebuild : List Row → Cursor) (pool : Pool) : Cursor.Step :=
  match rows with
  | r :: rest => (.row r, rebuild rest, pool)
  | [] => (.ended, rebuild [], pool)

def Probe.step (p : Probe) (served : Nat) (pool : Pool) : Cursor.Step :=
  match p.breakOff, p.rows[served]? with
  | some (n, e), next =>
    if served = n then (.failed e, .probe p served false, pool.record (.brokeOff p.name e))
    else serve next
  | none, next => serve next
where
  /-- Serves the next row if there is one. -/
  serve : Option Row → Cursor.Step
    | some r => (.row r, .probe p (served + 1) false, pool.record (.served p.name))
    | none => (.ended, .probe p served false, pool)

/-- A step of a scan for targets: it selects all of them. -/
def TargetScan.step (scan : TargetScan) (pool : Pool) : Cursor.Step :=
  match scan.select with
  | .error e => (.failed e.toOp, .rows [], pool.record (.unreadable e.toOp))
  | .ok terms => (.busy, .rows (terms.map fun t => { target := t, scope := scan.scope }), pool)

/-- What looking at the next row brings: a failure, or nothing. -/
abbrev Lookahead.Look := Option OpError × Lookahead × Pool

mutual

def Cursor.step (access : Access) : Cursor → Pool → Cursor.Step
  | .rows rest, pool => Cursor.deliver rest .rows pool
  | .probe p served true, pool => (.ended, .probe p served true, pool)
  | .probe p served false, pool => p.step served pool
  | .scan scan, pool => scan.step pool
  | .reader s position true, pool => (.ended, .reader s position true, pool)
  | .reader s position false, pool =>
    match access.read s position pool with
    | (.row r, pool) => (.row r, .reader s (position + 1) false, pool)
    | (.failed e, pool) => (.failed e, .reader s position true, pool)
    | (outcome, pool) => (outcome, .reader s position false, pool)
  | .values targets source path (r :: queue), pool =>
    (.row r, .values targets source path queue, pool)
  | .values targets source path [], pool =>
    match targets.step access pool with
    | (.row target, targets, pool) =>
      match Path.rowsOf source path target with
      | .ok rows => (.busy, .values targets source path rows, pool)
      | .error e =>
        (Cursor.values targets source path []).failing e (pool.record (.unreadable e))
    | (.failed e, targets, pool) => (Cursor.values targets source path []).failing e pool
    | (outcome, targets, pool) => (outcome, .values targets source path [], pool)
  | .filter input keep, pool =>
    match input.step access pool with
    | (.row r, input, pool) => (if keep r then .row r else .busy, .filter input keep, pool)
    | (.failed e, input, pool) => (Cursor.filter input keep).failing e pool
    | (outcome, input, pool) => (outcome, .filter input keep, pool)
  | .mapped input change, pool =>
    match input.step access pool with
    | (.row r, input, pool) => (.row (change r), .mapped input change, pool)
    | (.failed e, input, pool) => (Cursor.mapped input change).failing e pool
    | (outcome, input, pool) => (outcome, .mapped input change, pool)
  | .unique input width seen, pool =>
    match input.step access pool with
    | (.row r, input, pool) =>
      if seen.contains (r.keyOf width) then (.busy, .unique input width seen, pool)
      else (.row r, .unique input width (r.keyOf width :: seen), pool)
    | (.failed e, input, pool) => (Cursor.unique input width seen).failing e pool
    | (outcome, input, pool) => (outcome, .unique input width seen, pool)
  | .unsorted plan, pool =>
    match plan.opened access pool with
    | (.ok input, pool) => (.busy, .sorting input [], pool)
    | (.error e, pool) => (.failed e, .rows [], pool)
  | .sorting input arrived, pool =>
    match input.step access pool with
    | (.row r, input, pool) => (.busy, .sorting input (r :: arrived), pool)
    | (.busy, input, pool) => (.busy, .sorting input arrived, pool)
    | (.failed e, input, pool) => (Cursor.sorting input []).failing e pool
    | (.ended, input, pool) =>
      let (_, pool) := input.close pool
      (.busy, .rows (Ordered.sort Row.compare arrived.reverse), pool)
  | .union inputs, pool =>
    match Lookahead.lookFirst access inputs pool with
    | some (none, inputs, pool) => (.busy, .union inputs, pool)
    | some (some e, inputs, pool) => (Cursor.union inputs).failing e pool
    | none =>
      match Lookahead.takeLeast? inputs with
      | some (r, inputs) => (.row r, .union inputs, pool)
      | none => (.ended, .union inputs, pool)
  | .merge how left right phase (r :: queue), pool =>
    (.row r, .merge how left right phase queue, pool)
  | .merge how left right phase [], pool =>
    match how.move phase left.head right.head with
    | .stop => (.ended, .merge how left right phase [], pool)
    | .go delivered passLeft passRight phase =>
      (.busy, .merge how (left.passIf passLeft) (right.passIf passRight) phase delivered, pool)
    | .lookLeft =>
      match left.look access pool with
      | (none, left, pool) => (.busy, .merge how left right phase [], pool)
      | (some e, left, pool) => (Cursor.merge how left right phase []).failing e pool
    | .lookRight =>
      match right.look access pool with
      | (none, right, pool) => (.busy, .merge how left right phase [], pool)
      | (some e, right, pool) => (Cursor.merge how left right phase []).failing e pool
  | .ahead (.mk inner (.row r)), pool => (.row r, .ahead (.mk inner .unknown), pool)
  | .ahead (.mk inner .ended), pool => (.ended, .ahead (.mk inner .unknown), pool)
  | .ahead (.mk inner .unknown), pool =>
    let (outcome, inner, pool) := inner.step access pool
    (outcome, .ahead (.mk inner .unknown), pool)

/-- A step towards having the next row in view. -/
def Lookahead.look (access : Access) : Lookahead → Pool → Lookahead.Look
  | .mk inner .unknown, pool =>
    match inner.step access pool with
    | (.row r, inner, pool) => (none, .mk inner (.row r), pool)
    | (.ended, inner, pool) => (none, .mk inner .ended, pool)
    | (.busy, inner, pool) => (none, .mk inner .unknown, pool)
    | (.failed e, inner, pool) => (some e, .mk inner .unknown, pool)
  | l, pool => (none, l, pool)

/-- A step towards having the next row in view of the first lookahead that does not; nothing if
all do. -/
def Lookahead.lookFirst (access : Access) :
    List Lookahead → Pool → Option (Option OpError × List Lookahead × Pool)
  | [], _ => none
  | .mk inner .unknown :: rest, pool =>
    let (failure, l, pool) := Lookahead.look access (.mk inner .unknown) pool
    some (failure, l :: rest, pool)
  | l :: rest, pool =>
    match Lookahead.lookFirst access rest pool with
    | some (failure, rest, pool) => some (failure, l :: rest, pool)
    | none => none

end

end GraphShapes
