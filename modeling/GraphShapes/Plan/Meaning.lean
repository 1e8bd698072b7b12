import GraphShapes.Plan
import GraphShapes.RowFeed.Join
import GraphShapes.RowFeed.Merge

/-!
# What plans deliver

The meaning of a plan is the feed of rows that a reader of the whole plan gets, or the failure to
open it. It is computed from the meanings of the inputs, one operator at a time, and that of a
splitter is the meaning of its supply, however many readers there are. Only a sort opens its
input late: a failure to open the input is then a failure at the first row.
-/

namespace GraphShapes

namespace Path

/-- The rows of a target along an optional path: one for every value, or the target as its own
value. -/
def rowsOf (source : Source) (path : Option Path) (row : Row) : Except OpError (List Row) :=
  match path with
  | none => .ok [(row.trim 1).withValue row.target]
  | some p =>
    match source.hits (p.pattern row.target) with
    | .error e => .error e.toOp
    | .ok sts => .ok (sts.map fun st =>
        { Row.ofStatement row.target (p.valueOf st) st with scope := row.scope })

end Path

namespace TargetScan

/-- Does one of the selectors pick the term? -/
def isSelected (source : Source) (term : Term) : List Target → Except Error Bool
  | [] => .ok false
  | t :: rest => do
    if ← t.contains source term then return true
    isSelected source term rest

/-- The union of several selections. -/
def selectAll (select : Target → Except Error Selection) :
    List Target → Selection → Except Error Selection
  | [], acc => .ok acc
  | t :: rest, acc => do selectAll select rest (acc.addAll (← select t))

/-- The starting points of the changed statements on a path. -/
def changedAlong (delta : Delta) : Option Path → Except Error (List Term)
  | none => .ok []
  | some p => do
    let new ← delta.added.hits { predicate := some p.relation }
    let gone ← delta.removed.hits { predicate := some p.relation }
    return (new ++ gone).map p.focusOf

/-- The targets that the scan delivers. -/
def select (scan : TargetScan) : Except Error Selection :=
  match scan.mode with
  | .all => selectAll (Target.select scan.source) scan.targets []
  | .affected delta path => do
    let bySelection ← selectAll (Target.affected delta) scan.targets []
    let candidates := bySelection.addAll (← changedAlong delta path)
    candidates.filterM fun term => isSelected scan.source term scan.targets

/-- The scope of the targets that the scan delivers. -/
def scope (scan : TargetScan) : Scope :=
  match scan.mode with
  | .all => .base
  | .affected .. => .delta

/-- The rows that the scan delivers. -/
def rows (scan : TargetScan) : RowFeed :=
  match scan.select with
  | .error e => .failed e.toOp
  | .ok terms => Feed.ofList (terms.map fun t => { target := t, scope := scan.scope })

end TargetScan

namespace Probe

/-- The rows up to the point where the probe breaks off. -/
def feed (p : Probe) : RowFeed :=
  match p.breakOff with
  | none => Feed.ofList p.rows
  | some (n, e) => if n ≤ p.rows.length then Feed.breaking e (p.rows.take n) else Feed.ofList p.rows

/-- The rows that the probe delivers, or its failure to open. -/
def meaning (p : Probe) : Except OpError RowFeed :=
  match p.refusal with
  | some e => .error e
  | none => .ok p.feed

end Probe

namespace Plan

/-- How many columns an equality join compares. -/
def joinWidth (allColumns : Bool) : Option Nat := if allColumns then none else some 1

mutual

/-- What a plan delivers, given what its splitters deliver. -/
def meaning (splitter : SplitterId → Except OpError RowFeed) : Plan → Except OpError RowFeed
  | empty _ => .ok .done
  | values rows _ => .ok (Feed.ofList rows)
  | probe p => p.meaning
  | targetScan scan => .ok scan.rows
  | reader s _ => splitter s
  | valuesOf targets source path => do
    return (← targets.meaning splitter).expand (Path.rowsOf source path)
  | countValues targets vs _ test => do
    let ts ← targets.meaning splitter
    return RowFeed.countValues test ts (← vs.meaning splitter)
  | filter input _ keep => do return (← input.meaning splitter).filter keep
  | trim input width => do return RowFeed.trim width (← input.meaning splitter)
  | sort input =>
    match input.meaning splitter with
    | .error e => .ok (.failed e)
    | .ok feed => .ok (RowFeed.sorted feed)
  | unique input width => do return RowFeed.unique width (← input.meaning splitter)
  | union inputs => do return RowFeed.mergeAll (← meanings splitter inputs)
  | tag input shape => do return RowFeed.tag shape (← input.meaning splitter)
  | relabel input _ => input.meaning splitter
  | equalsJoin left right allColumns => do
    let l ← left.meaning splitter
    return RowFeed.equalsJoin (joinWidth allColumns) l (← right.meaning splitter)
  | innerJoin left right => do
    let l ← left.meaning splitter
    return RowFeed.innerJoin l (← right.meaning splitter)
  | antiJoin left right => do
    let l ← left.meaning splitter
    return RowFeed.antiJoin l (← right.meaning splitter)

/-- What several plans deliver; the first that cannot be opened decides. -/
def meanings (splitter : SplitterId → Except OpError RowFeed) :
    List Plan → Except OpError (List RowFeed)
  | [] => .ok []
  | p :: rest => do
    let feed ← p.meaning splitter
    return feed :: (← meanings splitter rest)

end

/-- Another declared layout changes nothing that is delivered. -/
theorem meaning_relabel (splitter : SplitterId → Except OpError RowFeed) (input : Plan)
    (layout : Layout) : (relabel input layout).meaning splitter = input.meaning splitter := by
  rw [meaning]

end Plan

namespace Splitters

/-- What a splitter delivers according to a table; nothing if the table does not have it. -/
def delivered (table : Array (Except OpError RowFeed)) (s : SplitterId) : Except OpError RowFeed :=
  table.getD s (.ok .done)

/-- What the splitters deliver, in the order of their numbers. -/
def meanings (splitters : Splitters) : Array (Except OpError RowFeed) :=
  splitters.foldl (fun table supply => table.push (supply.meaning (delivered table))) #[]

end Splitters

namespace Plan

/-- What a plan delivers among its splitters. -/
def feedIn (splitters : Splitters) (p : Plan) : Except OpError RowFeed :=
  p.meaning (Splitters.delivered splitters.meanings)

/-- All rows of a plan among its splitters, or its first failure. -/
def collect (splitters : Splitters) (p : Plan) : Except OpError (List Row) := do
  (← p.feedIn splitters).toExcept

end Plan

end GraphShapes
