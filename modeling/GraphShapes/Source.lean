import GraphShapes.Error
import GraphShapes.Feed
import GraphShapes.Store

/-!
# Sources and deltas

Validation reads its data through scans of a `Source`: a store that may fail to answer some of
them, at once or after some of the hits. A `Delta` is a pair of sources, the statements that a
commit adds and those that it removes; it decides what has to be looked at and is never itself
the data under validation.

By itself a source answers a pattern in the same way whenever it is asked. `Conditions` say how it
answers on an occasion: a scan may fail on one and be answered on the next.
-/

namespace GraphShapes

/-- How a scan fails. -/
inductive Fault where
  /-- The scan is refused. -/
  | refused (failure : Error)
  /-- The scan breaks off after so many hits. -/
  | brokenOff (hits : Nat) (failure : Error)

/-- A store, some of whose scans may fail. -/
structure Source where
  store : Store
  /-- How the scan for a pattern fails, if it does. -/
  fault : Pattern → Option Fault := fun _ => none

namespace Source

/-- A store that answers every scan. -/
def ofStore (store : Store) : Source := ⟨store, fun _ => none⟩

/-- A store whose scans for a predicate, or all of whose scans, fail: at once, or after so many
hits. -/
def failing (store : Store) (predicate : Option Term) (hits : Option Nat) (failure : Error) :
    Source where
  store := store
  fault p :=
    if predicate.isNone || p.predicate = predicate then
      match hits with
      | none => some (.refused failure)
      | some n => some (.brokenOff n failure)
    else none

/-- The statements that fit a pattern, as far as the source delivers them. -/
def scan (s : Source) (p : Pattern) : Except Error (Feed Error Statement) :=
  let hits := s.store.scan p
  match s.fault p with
  | none => .ok (Feed.ofList hits)
  | some (.refused e) => .error e
  | some (.brokenOff n e) => .ok (Feed.breaking e (hits.take n))

/-- All statements that fit a pattern. -/
def hits (s : Source) (p : Pattern) : Except Error (List Statement) := do
  (← s.scan p).toExcept

/-- Does some statement fit the pattern? Only the first hit is asked for. -/
def hasMatch (s : Source) (p : Pattern) : Except Error Bool := do
  (← s.scan p).nonempty

def isEmpty (s : Source) : Bool := s.store.isEmpty

end Source

/-- An occasion on which sources are asked: the numbers of the steps and inputs that lead to it. -/
abbrev Occasion := List Nat

/-- How a scan for a pattern fails on an occasion, given how the source fails it by itself. -/
abbrev Conditions := Occasion → Pattern → Option Fault → Option Fault

namespace Conditions

/-- On every occasion sources answer as they do by themselves. -/
def constant : Conditions := fun _ _ fault => fault

/-- The conditions on the occasions below a step or an input. -/
def part (c : Conditions) (n : Nat) : Conditions := fun occasion => c (n :: occasion)

@[simp] theorem part_constant (n : Nat) : constant.part n = constant := rfl

end Conditions

namespace Source

/-- The source as it answers under conditions. -/
def during (s : Source) (c : Conditions) : Source :=
  { s with fault := fun p => c [] p (s.fault p) }

@[simp] theorem during_constant (s : Source) : s.during .constant = s := rfl

end Source

/-- The changes of a commit. -/
structure Delta where
  added : Source
  removed : Source

namespace Delta

/-- The delta as its sides answer under conditions, each on an occasion of its own. -/
def during (d : Delta) (c : Conditions) : Delta :=
  ⟨d.added.during (c.part 0), d.removed.during (c.part 1)⟩

@[simp] theorem during_constant (d : Delta) : d.during .constant = d := rfl

/-- Does a changed statement fit the pattern? -/
def touches (d : Delta) (p : Pattern) : Except Error Bool := do
  if ← d.added.hasMatch p then return true
  d.removed.hasMatch p

/-- Does the commit change nothing? -/
def isEmpty (d : Delta) : Bool := d.added.isEmpty && d.removed.isEmpty

/-- The delta in diagnostics: which of its sides are empty. -/
def display (d : Delta) : String :=
  "Delta \x7b added_empty: " ++ toString d.added.isEmpty ++ ", removed_empty: " ++
    toString d.removed.isEmpty ++ " \x7d"

end Delta

end GraphShapes
