import GraphShapes.Cursor.Step
import GraphShapes.Proofs.Cursor.Merging
import GraphShapes.Proofs.Cursor.Probe
import GraphShapes.Proofs.Meaning.Surroundings
import GraphShapes.Proofs.RowFeed.Position

/-!
# What a cursor still delivers

`Cursor.feed` is the meaning of a cursor in the middle of its work: the feed of the rows that it
still delivers. It is computed like the meaning of a plan, from what the splitters deliver, with
what the operators have in hand put in front. `Cursor.work` is the number of steps in which the
operators of a cursor can still be busy; what the supplies of splitters do meanwhile is not part of
it. Both are about the cursor alone: whatever else happens in the pool, they stay the same.
-/

namespace GraphShapes

variable (around : Surroundings)

mutual

/-- The rows that a cursor still delivers. -/
def Cursor.feed : Cursor → RowFeed
  | .rows rest => Feed.ofList rest
  | .probe p served closed => if closed then .done else p.feedFrom served
  | .scan scan => scan.rows
  | .reader s position closed =>
    if closed then .done else (Feed.orFailed (around.delivered s)).drop position
  | .values targets source path queue =>
    Feed.prepend queue (targets.feed.expand (Path.rowsOf source path))
  | .filter input keep => input.feed.filter keep
  | .mapped input change => input.feed.map change
  | .unique input width seen => RowFeed.uniqueFrom width seen input.feed
  | .unsorted plan => RowFeed.sorted (Feed.orFailed (plan.meaning around.delivered))
  | .sorting input arrived => RowFeed.sorted (Feed.prepend arrived.reverse input.feed)
  | .union inputs => RowFeed.mergeAll (Lookahead.feeds inputs)
  | .merge how left right phase queue => Feed.prepend queue (how.feed phase left.feed right.feed)
  | .ahead input => input.feed

/-- The rows that a lookahead still delivers, the row in view included. -/
def Lookahead.feed : Lookahead → RowFeed
  | .mk inner head => head.shows inner.feed

def Lookahead.feeds : List Lookahead → List RowFeed
  | [] => []
  | l :: rest => l.feed :: Lookahead.feeds rest

end

mutual

/-- At most how many steps the operators of a cursor are still busy. -/
def Cursor.work : Cursor → Nat
  | .rows _ => 0
  | .probe .. => 0
  | .scan _ => 1
  | .reader .. => 0
  | .values targets _ _ _ => targets.work + (targets.feed around).length
  | .filter input _ => input.work + (input.feed around).length
  | .mapped input _ => input.work
  | .unique input _ _ => input.work + (input.feed around).length
  | .unsorted plan => plan.load around.limit + plan.limit around.limit + 2
  | .sorting input _ => input.work + (input.feed around).length + 1
  | .union inputs => Lookahead.worksIn (fun _ => 5) inputs
  | .merge how left right phase _ =>
    phase.steps + left.workIn (how.viewLeft phase) + right.workIn (how.viewRight phase)
  | .ahead input => input.innerWork

/-- The work of a lookahead whose operator looks at its rows, with what a row in view counts for. -/
def Lookahead.workIn (view : Row → Nat) : Lookahead → Nat
  | .mk inner head => inner.work + head.steps view (inner.feed around)

def Lookahead.worksIn (view : Row → Nat) : List Lookahead → Nat
  | [] => 0
  | l :: rest => l.workIn view + Lookahead.worksIn view rest

/-- The work of the cursor behind a lookahead. -/
def Lookahead.innerWork : Lookahead → Nat
  | .mk inner _ => inner.work

end

end GraphShapes
