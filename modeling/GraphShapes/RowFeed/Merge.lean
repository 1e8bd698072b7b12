import GraphShapes.RowFeed

/-!
# Merging row feeds

`merge` delivers the rows of two feeds, at each moment the smaller of the two next rows, and the
left one if they are equal. It looks at both feeds before it delivers anything, so a failure next
in line on either side, the left one first, is the next thing that happens. The merge of many
feeds is the merge of the first with the merge of the others: at each moment the smallest next
row, and of equal ones that of the earliest feed.
-/

namespace GraphShapes.RowFeed

/-- The merge of a feed that starts with a row with another feed, given the merge of the rest of
the first feed with any feed. -/
def mergeNext (row : Row) (mergeRest : RowFeed → RowFeed) : RowFeed → RowFeed
  | .failed e => .failed e
  | .done => .next row (mergeRest .done)
  | .next other rest =>
    if (row.compare other).isLE then .next row (mergeRest (.next other rest))
    else .next other (mergeNext row mergeRest rest)

/-- The rows of two feeds in the order in which the smaller next row goes first. -/
def merge : RowFeed → RowFeed → RowFeed
  | .failed e, _ => .failed e
  | .done, right => right
  | .next row rest, right => mergeNext row (merge rest) right

/-- The rows of many feeds in the order in which the smallest next row goes first. -/
def mergeAll (feeds : List RowFeed) : RowFeed := feeds.foldr merge .done

end GraphShapes.RowFeed
