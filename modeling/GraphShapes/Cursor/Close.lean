import GraphShapes.Cursor.Pool

/-!
# Closing cursors

Closing goes down the whole tree and reaches every producer outside the library that is still
open. A closed cursor delivers nothing any more, and closing it again changes nothing.
-/

namespace GraphShapes

mutual

def Cursor.close : Cursor → Pool → Cursor × Pool
  | .rows _, pool => (.rows [], pool)
  | .probe p served true, pool => (.probe p served true, pool)
  | .probe p served false, pool => (.probe p served true, pool.record (.closed p.name))
  | .scan _, pool => (.rows [], pool)
  | .reader s position _, pool => (.reader s position true, pool)
  | .values targets source path _, pool =>
    let (targets, pool) := targets.close pool
    (.values targets source path [], pool)
  | .filter input keep, pool =>
    let (input, pool) := input.close pool
    (.filter input keep, pool)
  | .mapped input change, pool =>
    let (input, pool) := input.close pool
    (.mapped input change, pool)
  | .unique input width _, pool =>
    let (input, pool) := input.close pool
    (.unique input width [], pool)
  | .unsorted _, pool => (.rows [], pool)
  | .sorting input _, pool =>
    let (_, pool) := input.close pool
    (.rows [], pool)
  | .union inputs, pool =>
    let (inputs, pool) := Lookahead.closeAll inputs pool
    (.union inputs, pool)
  | .merge how left right _ _, pool =>
    let (left, pool) := left.close pool
    let (right, pool) := right.close pool
    (.merge how left right .comparing [], pool)
  | .ahead input, pool =>
    let (input, pool) := input.close pool
    (.ahead input, pool)

/-- Closes a lookahead. A row in view is given up. -/
def Lookahead.close : Lookahead → Pool → Lookahead × Pool
  | .mk inner _, pool =>
    let (inner, pool) := inner.close pool
    (.mk inner .ended, pool)

def Lookahead.closeAll : List Lookahead → Pool → List Lookahead × Pool
  | [], pool => ([], pool)
  | l :: rest, pool =>
    let (l, pool) := l.close pool
    let (rest, pool) := Lookahead.closeAll rest pool
    (l :: rest, pool)

end

/-- Closes cursors one after the other and gives up on them. -/
def Cursor.closeEach (cursors : List Cursor) (pool : Pool) : Pool :=
  cursors.foldl (fun pool c => (c.close pool).2) pool

end GraphShapes
