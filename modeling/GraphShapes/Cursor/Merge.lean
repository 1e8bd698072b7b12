import GraphShapes.Plan.Meaning

/-!
# Merging two sides step by step

The operators with two inputs hold the next row of each side in view and decide from these two
heads alone what to do next (`Merge.move`): look at the next row of a side, move past one of the
two, or deliver rows. What they remember between two decisions is their `Phase`: the group of
equal keys, or the values of a target, that they are collecting.
-/

namespace GraphShapes

/-- What is known of the next row of an input. -/
inductive Head where
  /-- Nobody has looked yet. -/
  | unknown
  /-- There is none. -/
  | ended
  | row (next : Row)

def Head.row? : Head → Option Row
  | row r => some r
  | _ => none

/-- The operators with two inputs. -/
inductive Merge where
  /-- Pairs the rows of equal keys. -/
  | equals (width : Option Nat)
  /-- Delivers one row for every target of both sides. -/
  | inner
  /-- Delivers the left rows whose target the right side does not have. -/
  | anti
  /-- Delivers the left targets whose right values, taken together, pass a test. -/
  | count (test : List Term → Bool)

/-- What an operator with two inputs is collecting. -/
inductive Phase where
  /-- Nothing. -/
  | comparing
  /-- The left rows of a group. -/
  | lefts (key : List Term) (lefts : List Row)
  /-- The right rows of a group whose left rows are complete. -/
  | rights (key : List Term) (lefts rights : List Row)
  /-- The values of the left target. -/
  | values (found : List Term)

/-- What an operator with two inputs does next. -/
inductive Move where
  /-- It looks at the next row of the left side. -/
  | lookLeft
  /-- It looks at the next row of the right side. -/
  | lookRight
  | stop
  /-- It delivers rows and moves past the rows in view, or not. -/
  | go (delivered : List Row) (passLeft passRight : Bool) (phase : Phase)

namespace Merge

/-- The columns that decide whether two rows belong together. -/
def width : Merge → Option Nat
  | equals w => w
  | _ => some 1

/-- What is delivered for a group of left and right rows with a common key. -/
def combine (key : List Term) (lefts rights : List Row) : Merge → List Row
  | equals _ => RowFeed.pairs key.length lefts rights
  | _ =>
    match lefts with
    | [] => []
    | l :: _ => [rights.foldl Row.absorb (l.trim 1)]

/-- Decides between two rows where groups are formed. -/
def compareHeads (how : Merge) (l r : Row) : Move :=
  match Row.compareLines (l.keyOf how.width) (r.keyOf how.width) with
  | .lt => .go [] true false .comparing
  | .gt => .go [] false true .comparing
  | .eq => .go [] false false (.lefts (l.keyOf how.width) [])

/-- The next move of an operator that forms groups. -/
def groupMove (how : Merge) : Phase → Head → Head → Move
  | .lefts _ _, .unknown, _ => .lookLeft
  | .lefts key lefts, .row l, _ =>
    if l.keyOf how.width = key then .go [] true false (.lefts key (lefts ++ [l]))
    else .go [] false false (.rights key lefts [])
  | .lefts key lefts, .ended, _ => .go [] false false (.rights key lefts [])
  | .rights _ _ _, _, .unknown => .lookRight
  | .rights key lefts rights, _, .row r =>
    if r.keyOf how.width = key then .go [] false true (.rights key lefts (rights ++ [r]))
    else .go (how.combine key lefts rights) false false .comparing
  | .rights key lefts rights, _, .ended =>
    .go (how.combine key lefts rights) false false .comparing
  | _, .unknown, _ => .lookLeft
  | _, _, .unknown => .lookRight
  | _, .row l, .row r => how.compareHeads l r
  | _, _, _ => .stop

/-- The next move of the operator that delivers left rows without a counterpart. -/
def antiMove : Head → Head → Move
  | .unknown, _ => .lookLeft
  | .ended, _ => .stop
  | .row _, .unknown => .lookRight
  | .row l, .ended => .go [l] true false .comparing
  | .row l, .row r =>
    match r.target.compare l.target with
    | .lt => .go [] false true .comparing
    | .eq => .go [] true false .comparing
    | .gt => .go [l] true false .comparing

/-- Ends the collection of values for a left target. -/
def judge (test : List Term → Bool) (target : Row) (found : List Term) : Move :=
  .go (if test found then [target.trim 1] else []) true false .comparing

/-- The values that an operator has collected. -/
def found : Phase → List Term
  | .values vs => vs
  | _ => []

/-- The next move of the operator that judges the values of targets. -/
def countMove (test : List Term → Bool) (phase : Phase) : Head → Head → Move
  | .unknown, _ => .lookLeft
  | .ended, _ => .stop
  | .row _, .unknown => .lookRight
  | .row t, .ended => judge test t (found phase)
  | .row t, .row v =>
    match v.target.compare t.target with
    | .lt => .go [] false true phase
    | .eq => .go [] false true (.values (found phase ++ v.value?.toList))
    | .gt => judge test t (found phase)

/-- The next move, given what is being collected and what is in view. -/
def move : Merge → Phase → Head → Head → Move
  | equals w => groupMove (equals w)
  | inner => groupMove inner
  | anti => fun _ => antiMove
  | count test => countMove test

end Merge

end GraphShapes
