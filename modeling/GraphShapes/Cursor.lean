import GraphShapes.Cursor.Merge

/-!
# Cursors

A cursor is a plan that is being read: the tree of its operators, each with what it has in hand.
A `Lookahead` holds the next row of a cursor in view without handing it on.

An operator that reads its whole input first (`sorting`) starts as a plan that waits
(`unsorted`) and is opened when the first row is asked for.
-/

namespace GraphShapes

mutual

/-- A plan that is being read. -/
inductive Cursor where
  | rows (rest : List Row)
  /-- Reads a producer outside the library, of which so many rows have been served. -/
  | probe (probe : Probe) (served : Nat) (closed : Bool)
  /-- Selects targets when the first one is asked for. -/
  | scan (scan : TargetScan)
  | reader (splitter : SplitterId) (position : Nat) (closed : Bool)
  /-- Replaces targets by their values; some rows of the last target are in hand. -/
  | values (targets : Cursor) (source : Source) (path : Option Path) (queue : List Row)
  | filter (input : Cursor) (keep : Row → Bool)
  | mapped (input : Cursor) (change : Row → Row)
  /-- Drops rows whose key has been seen. -/
  | unique (input : Cursor) (width : Option Nat) (seen : List (List Term))
  /-- Sorts the rows of a plan that has not been opened. -/
  | unsorted (plan : Plan)
  /-- Reads its input to the end; the rows that have arrived, the last one first. -/
  | sorting (input : Cursor) (arrived : List Row)
  /-- Delivers the smallest of the rows in view. -/
  | union (inputs : List Lookahead)
  /-- Merges two inputs; some rows that were put together are in hand. -/
  | merge (how : Merge) (left right : Lookahead) (phase : Phase) (queue : List Row)
  /-- Hands on what a lookahead has in view. -/
  | ahead (input : Lookahead)

/-- A cursor whose next row may be in view. -/
inductive Lookahead where
  /-- The cursor behind the row in view. -/
  | mk (inner : Cursor) (head : Head)

end

namespace Lookahead

/-- The cursor behind the row in view. -/
def inner : Lookahead → Cursor
  | mk c _ => c

/-- What is known of the next row. -/
def head : Lookahead → Head
  | mk _ h => h

/-- A cursor at which nobody has looked yet. -/
def fresh (c : Cursor) : Lookahead := mk c .unknown

/-- The lookahead behind the row in view. -/
def pass (l : Lookahead) : Lookahead := mk l.inner .unknown

/-- The lookahead behind the row in view, if it is handed on. -/
def passIf (handedOn : Bool) (l : Lookahead) : Lookahead := if handedOn then l.pass else l

/-- The smallest row in view, the first of equal ones, and the lookaheads behind it. -/
def takeLeast? : List Lookahead → Option (Row × List Lookahead)
  | [] => none
  | l :: rest =>
    match l.head, takeLeast? rest with
    | .row r, some (s, rest') =>
      if (r.compare s).isLE then some (r, l.pass :: rest) else some (s, l :: rest')
    | .row r, none => some (r, l.pass :: rest)
    | _, found => found.map fun (s, rest') => (s, l :: rest')

end Lookahead

/-- What a step of a cursor brings. -/
inductive Outcome where
  | row (next : Row)
  | ended
  | failed (failure : OpError)
  /-- Nothing yet. -/
  | busy

end GraphShapes
