import GraphShapes.Plan

/-!
# How much work a plan can be

Two upper bounds for a plan that is read to the end: `limit` for the number of rows that it
delivers, and `load` for the number of steps in which one of its operators is busy. An operator is
busy at most six times for every row of its inputs and for the end of each, and twice at its own
beginning and end.
-/

namespace GraphShapes

/-- At most how many terms a selector picks out of so many statements. -/
def Target.limit (statements : Nat) : Target → Nat
  | nodes listed => 2 * listed.length
  | _ => statements

/-- At most how many targets a scan delivers. -/
def TargetScan.limit (scan : TargetScan) : Nat :=
  match scan.mode with
  | .all => scan.targets.foldl (fun n t => n + t.limit scan.source.store.size) 0
  | .affected delta _ =>
    let changes := delta.added.store.size + delta.removed.store.size
    scan.targets.foldl (fun n t => n + t.limit changes) changes

namespace Plan

mutual

/-- At most how many rows a plan delivers, given how many its splitters deliver. -/
def limit (splitter : SplitterId → Nat) : Plan → Nat
  | empty _ => 0
  | values rows _ => rows.length
  | probe p => p.rows.length
  | targetScan scan => scan.limit
  | reader s _ => splitter s
  | valuesOf targets source _ => targets.limit splitter * (source.store.size + 1)
  | countValues targets _ _ _ => targets.limit splitter
  | filter input _ _ => input.limit splitter
  | trim input _ => input.limit splitter
  | sort input => input.limit splitter
  | unique input _ => input.limit splitter
  | union inputs => limits splitter inputs
  | tag input _ => input.limit splitter
  | relabel input _ => input.limit splitter
  | equalsJoin left right _ => left.limit splitter * right.limit splitter
  | innerJoin left _ => left.limit splitter
  | antiJoin left _ => left.limit splitter

def limits (splitter : SplitterId → Nat) : List Plan → Nat
  | [] => 0
  | p :: rest => p.limit splitter + limits splitter rest

end

/-- At most how many steps an operator is busy over inputs that deliver so many rows. -/
def share (inputs rows : Nat) : Nat := 6 * (rows + inputs) + 2

mutual

/-- At most how many steps the operators of a plan are busy. -/
def load (splitter : SplitterId → Nat) : Plan → Nat
  | valuesOf input _ _ => input.load splitter + share 1 (input.limit splitter)
  | filter input _ _ => input.load splitter + share 1 (input.limit splitter)
  | trim input _ => input.load splitter
  | sort input => input.load splitter + share 1 (input.limit splitter)
  | unique input _ => input.load splitter + share 1 (input.limit splitter)
  | union inputs => loads splitter inputs + share inputs.length (limits splitter inputs)
  | tag input _ => input.load splitter
  | relabel input _ => input.load splitter
  | countValues left right _ _ =>
    left.load splitter + right.load splitter +
      share 2 (left.limit splitter + right.limit splitter)
  | equalsJoin left right _ =>
    left.load splitter + right.load splitter +
      share 2 (left.limit splitter + right.limit splitter)
  | innerJoin left right =>
    left.load splitter + right.load splitter +
      share 2 (left.limit splitter + right.limit splitter)
  | antiJoin left right =>
    left.load splitter + right.load splitter +
      share 2 (left.limit splitter + right.limit splitter)
  | _ => share 0 0

def loads (splitter : SplitterId → Nat) : List Plan → Nat
  | [] => 0
  | p :: rest => p.load splitter + loads splitter rest

end

mutual

def readSplitters : Plan → List SplitterId
  | empty _ => []
  | values .. => []
  | probe _ => []
  | targetScan _ => []
  | reader s _ => [s]
  | valuesOf targets _ _ => targets.readSplitters
  | countValues targets vs _ _ => targets.readSplitters ++ vs.readSplitters
  | filter input _ _ => input.readSplitters
  | trim input _ => input.readSplitters
  | sort input => input.readSplitters
  | unique input _ => input.readSplitters
  | union inputs => allReadSplitters inputs
  | tag input _ => input.readSplitters
  | relabel input _ => input.readSplitters
  | equalsJoin left right _ => left.readSplitters ++ right.readSplitters
  | innerJoin left right => left.readSplitters ++ right.readSplitters
  | antiJoin left right => left.readSplitters ++ right.readSplitters

def allReadSplitters : List Plan → List SplitterId
  | [] => []
  | p :: rest => p.readSplitters ++ allReadSplitters rest

end

end Plan

end GraphShapes
