import GraphShapes.Cursor.Step
import GraphShapes.Plan.Load

/-!
# Reading cursors

A cursor is read by repeating its steps until one of them brings something. The number of steps
is bounded by the budget of the pool, to which every plan that is read adds its load; a cursor
that went beyond it would be closed and be at its end.

A splitter steps its supply on behalf of its readers. Its supply reads only splitters with
smaller numbers, so the access to a pool of `n` splitters is nested `n` times.

A splitter that no plan or cursor can reach any more gives its supply up (`Pool.sweep`).
-/

namespace GraphShapes

namespace Pool

/-- Opens the supply of a splitter, unless that has happened; `below` is the access that the
supply has. A supply that was opened before, and failed, is no failure here. -/
def start (below : Access) (s : SplitterId) (pool : Pool) : Except OpError Unit × Pool :=
  match pool.waiting? s with
  | none => (.ok (), pool)
  | some plan =>
    let pool := pool.change s fun splitter =>
      { splitter with supply := .ended, opens := splitter.opens + 1 }
    match plan.opened below pool with
    | (.ok c, pool) => (.ok (), pool.setSupply s (.opened c))
    | (.error e, pool) => (.error e, pool.setSupply s (.failed e))

/-- Steps the supply of a splitter for a reader that has read all rows that were kept. -/
def pull (below : Access) (s : SplitterId) (supply : Cursor) (pool : Pool) : Outcome × Pool :=
  match supply.step below pool with
  | (.row r, c, pool) =>
    (.row r, pool.change s fun splitter =>
      { splitter with supply := .opened c, cache := splitter.cache.push r })
  | (.busy, c, pool) => (.busy, pool.setSupply s (.opened c))
  | (.ended, c, pool) =>
    let (_, pool) := c.close pool
    (.ended, pool.setSupply s .ended)
  | (.failed e, c, pool) =>
    let (_, pool) := c.close pool
    (.failed e, pool.setSupply s (.failed e))

/-- Reads a splitter at a position; `below` is the access that its supply has. -/
def read (below : Access) (s : SplitterId) (position : Nat) (pool : Pool) : Outcome × Pool :=
  match pool.splitters[s]? with
  | none => (.ended, pool)
  | some splitter =>
    match splitter.cache[position]?, splitter.supply with
    | some r, _ => (.row r, pool)
    | none, .opened c => pool.pull below s c
    | none, .failed e => (.failed e, pool)
    | none, _ => (.ended, pool)

/-- The access to a pool whose splitters are nested at most so deep. -/
def access : Nat → Access
  | 0 => ⟨fun _ pool => (.ok (), pool), fun _ _ pool => (.ended, pool)⟩
  | n + 1 => ⟨start (access n), read (access n)⟩

/-- At most how many rows a splitter delivers. -/
def limitOf (pool : Pool) (s : SplitterId) : Nat :=
  (pool.splitters[s]?.map Splitter.limit).getD 0

/-- The pool with the budget for a plan that will be read. -/
def prepare (pool : Pool) (plan : Plan) : Pool :=
  { pool with budget := pool.budget + plan.load pool.limitOf + plan.limit pool.limitOf }

/-- The pool with one more splitter over a plan, and its number. -/
def share (pool : Pool) (plan : Plan) : SplitterId × Pool :=
  let limit := plan.limit pool.limitOf
  let pool := pool.prepare plan
  (pool.splitters.size,
    { pool with splitters := pool.splitters.push { supply := .waiting plan, limit := limit } })

/-- The pool of the splitters that planning has allotted. -/
def ofSplitters (splitters : Splitters) : Pool :=
  splitters.foldl (fun pool plan => (pool.share plan).2) empty

def openPlan (pool : Pool) (plan : Plan) : Cursor.Opened :=
  plan.opened (access pool.splitters.size) (pool.prepare plan)

end Pool

namespace Cursor

/-- What asking a cursor for its next row brings. -/
abbrev Answer := Except OpError (Option Row) × Cursor × Pool

/-- Steps a cursor at most so often, until a step brings something. -/
def nextWithin (access : Access) : Nat → Cursor → Pool → Answer
  | 0, c, pool =>
    let (c, pool) := c.close pool
    (.ok none, c, pool)
  | fuel + 1, c, pool =>
    match c.step access pool with
    | (.row r, c, pool) => (.ok (some r), c, pool)
    | (.ended, c, pool) => (.ok none, c, pool)
    | (.failed e, c, pool) => (.error e, c, pool)
    | (.busy, c, pool) => nextWithin access fuel c pool

def next (c : Cursor) (pool : Pool) : Answer :=
  nextWithin (Pool.access pool.splitters.size) (pool.budget + 1) c pool

/-- Steps a cursor at most so often, until it ends or fails, and closes it; `arrived` are the rows
so far, the last one first. -/
def drainWithin (access : Access) :
    Nat → Cursor → List Row → Pool → Except OpError (List Row) × Pool
  | 0, c, arrived, pool => (.ok arrived.reverse, (c.close pool).2)
  | fuel + 1, c, arrived, pool =>
    match c.step access pool with
    | (.row r, c, pool) => drainWithin access fuel c (r :: arrived) pool
    | (.busy, c, pool) => drainWithin access fuel c arrived pool
    | (.ended, c, pool) => (.ok arrived.reverse, (c.close pool).2)
    | (.failed e, c, pool) => (.error e, (c.close pool).2)

def drain (c : Cursor) (pool : Pool) : Except OpError (List Row) × Pool :=
  drainWithin (Pool.access pool.splitters.size) (pool.budget + 1) c [] pool

end Cursor

namespace Pool

/-- Opens a plan, reads it to the end and closes it. -/
def collect (pool : Pool) (plan : Plan) : Except OpError (List Row) × Pool :=
  match pool.openPlan plan with
  | (.error e, pool) => (.error e, pool)
  | (.ok c, pool) => c.drain pool

end Pool

namespace Lookahead

/-- Brings the next row into view. A failure leaves it out of view. -/
def fill (l : Lookahead) (pool : Pool) : Except OpError Unit × Lookahead × Pool :=
  match l with
  | mk inner .unknown =>
    match inner.next pool with
    | (.ok (some r), inner, pool) => (.ok (), mk inner (.row r), pool)
    | (.ok none, inner, pool) => (.ok (), mk inner .ended, pool)
    | (.error e, inner, pool) => (.error e, mk inner .unknown, pool)
  | l => (.ok (), l, pool)

/-- Shows the next row without handing it on. -/
def peek (l : Lookahead) (pool : Pool) : Except OpError (Option Row) × Lookahead × Pool :=
  match l.fill pool with
  | (.ok (), l, pool) => (.ok l.head.row?, l, pool)
  | (.error e, l, pool) => (.error e, l, pool)

end Lookahead

mutual

/-- The splitters that a cursor reads. -/
def Cursor.readSplitters : Cursor → List SplitterId
  | .rows _ => []
  | .probe .. => []
  | .scan _ => []
  | .reader s _ _ => [s]
  | .values targets _ _ _ => targets.readSplitters
  | .filter input _ => input.readSplitters
  | .mapped input _ => input.readSplitters
  | .unique input _ _ => input.readSplitters
  | .unsorted plan => plan.readSplitters
  | .sorting input _ => input.readSplitters
  | .union inputs => Lookahead.allReadSplitters inputs
  | .merge _ left right _ _ => left.readSplitters ++ right.readSplitters
  | .ahead input => input.readSplitters

def Lookahead.readSplitters : Lookahead → List SplitterId
  | .mk inner _ => inner.readSplitters

def Lookahead.allReadSplitters : List Lookahead → List SplitterId
  | [] => []
  | l :: rest => l.readSplitters ++ Lookahead.allReadSplitters rest

end

def Supply.readSplitters : Supply → List SplitterId
  | waiting plan => plan.readSplitters
  | opened c => c.readSplitters
  | _ => []

namespace Pool

/-- The pool after a splitter has given its supply up. -/
def release (pool : Pool) (s : SplitterId) : Pool :=
  match pool.splitters[s]?.map Splitter.supply with
  | some (.opened c) => (c.close pool).2.setSupply s .ended
  | some (.waiting _) => pool.setSupply s .ended
  | _ => pool

/-- Releases the splitters below a number that are not in use: neither by the given readers, nor
by the supply of a splitter in use. -/
def sweepBelow : Nat → List SplitterId → Pool → Pool
  | 0, _, pool => pool
  | s + 1, inUse, pool =>
    if s ∈ inUse then
      match pool.splitters[s]? with
      | some splitter => sweepBelow s (splitter.supply.readSplitters ++ inUse) pool
      | none => sweepBelow s inUse pool
    else sweepBelow s inUse (pool.release s)

/-- Releases the splitters that nothing can reach from those that are in use. -/
def sweep (pool : Pool) (inUse : List SplitterId) : Pool :=
  sweepBelow pool.splitters.size inUse pool

end Pool

end GraphShapes
