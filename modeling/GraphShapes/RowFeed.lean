import GraphShapes.Error
import GraphShapes.Feed
import GraphShapes.Ordered

/-!
# Operators on row feeds

What the operators with one input make of the rows that the input delivers. A failure of the
input is a failure of the result at the same place; only `sorted` needs the whole input first and
therefore fails at once.
-/

namespace GraphShapes

/-- The rows that a plan delivers. -/
abbrev RowFeed := Feed OpError Row

namespace RowFeed

/-- The rows in ascending order; equal rows keep their order of arrival. -/
def sorted (feed : RowFeed) : RowFeed :=
  match feed.toExcept with
  | .ok rows => Feed.ofList (Ordered.sort Row.compare rows)
  | .error e => .failed e

/-- The rows whose key is not among those seen and has not occurred before. -/
def uniqueFrom (width : Option Nat) : List (List Term) → RowFeed → RowFeed
  | _, .done => .done
  | _, .failed e => .failed e
  | seen, .next row rest =>
    if row.keyOf width ∈ seen then uniqueFrom width seen rest
    else .next row (uniqueFrom width (row.keyOf width :: seen) rest)

/-- The first row of every key. -/
def unique (width : Option Nat) (feed : RowFeed) : RowFeed := uniqueFrom width [] feed

def trim (width : Nat) (feed : RowFeed) : RowFeed := feed.map (Row.trim width)

def tag (shape : ShapeId) (feed : RowFeed) : RowFeed := feed.map (Row.tag shape)

end RowFeed

end GraphShapes
