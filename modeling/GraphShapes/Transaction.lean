import GraphShapes.Source

/-!
# Pending commits

A transaction shows a commit that has not been made yet: the data as it will be, the delta that
leads there, and whether there was any data before. `Transaction.ofChange` computes these views
and drops from the delta what changes nothing.
-/

namespace GraphShapes

/-- The views of a pending commit. -/
structure Transaction where
  /-- The data after the commit. -/
  after : Source
  /-- What the commit changes. -/
  delta : Delta
  /-- Whether there was no data before. -/
  baseEmpty : Bool

namespace Transaction

/-- The removals that remove something. -/
def effectiveRemovals (before removed : Store) : Store :=
  .ofList (removed.toList.filter before.contains)

/-- The additions that add something, or put back what the same commit removes. -/
def effectiveAdditions (before added removed : Store) : Store :=
  .ofList (added.toList.filter fun st => !before.contains st || removed.contains st)

/-- The commit that takes the removals from a store and then puts the additions in. -/
def ofChange (before added removed : Store) : Transaction :=
  let gone := effectiveRemovals before removed
  let new := effectiveAdditions before added gone
  let after := (gone.toList.foldl Store.remove before).extend new.toList
  ⟨.ofStore after, ⟨.ofStore new, .ofStore gone⟩, before.isEmpty⟩

/-- The first commit, into an empty store. -/
def initial (added : Store) : Transaction := ofChange .empty added .empty

end Transaction

end GraphShapes
