import GraphShapes.Cursor

/-!
# The pool of splitters

All cursors that are read side by side share a pool: the splitters with the rows they have kept,
and the log of what happened to the producers outside the library and to the sources. A splitter
opens its supply when its first reader opens, keeps every row that the supply delivers, and
remembers how the supply ended.
-/

namespace GraphShapes

/-- The state of the plan behind a splitter. -/
inductive Supply where
  /-- Nobody has opened it. -/
  | waiting (plan : Plan)
  | opened (cursor : Cursor)
  /-- It has been read to the end, or given up. -/
  | ended
  | failed (failure : OpError)

/-- A splitter in use. -/
structure Splitter where
  /-- The plan behind it. -/
  supply : Supply
  /-- The rows that the supply has delivered. -/
  cache : Array Row := #[]
  /-- How often the supply was opened. -/
  opens : Nat := 0
  /-- At most how many rows the supply delivers. -/
  limit : Nat := 0

/-- What can happen to what lies below the operators: to a producer outside the library, which is
known by a name, or to a source of statements. -/
inductive Event where
  | opened (probe : String)
  | refused (probe : String) (failure : OpError)
  | served (probe : String)
  | brokeOff (probe : String) (failure : OpError)
  | closed (probe : String)
  /-- A source could not be read. -/
  | unreadable (failure : OpError)
deriving DecidableEq

/-- How often the producers of one name were opened, served a row and were closed. -/
structure Tally where
  opened : Nat := 0
  served : Nat := 0
  closed : Nat := 0
deriving DecidableEq

/-- The tally with one more event. An attempt to open counts, whether or not it succeeds. -/
def Tally.add (name : String) (t : Tally) : Event → Tally
  | .opened p => if p = name then { t with opened := t.opened + 1 } else t
  | .refused p _ => if p = name then { t with opened := t.opened + 1 } else t
  | .served p => if p = name then { t with served := t.served + 1 } else t
  | .brokeOff _ _ => t
  | .closed p => if p = name then { t with closed := t.closed + 1 } else t
  | .unreadable _ => t

/-- What cursors share. -/
structure Pool where
  /-- The splitters by number. -/
  splitters : Array Splitter := #[]
  /-- What happened to the producers outside the library and to the sources, the last event
  first. -/
  log : List Event := []
  /-- At most how many steps the plans in the pool take. -/
  budget : Nat := 0

namespace Pool

def empty : Pool := {}

/-- The pool after an event. -/
def record (pool : Pool) (event : Event) : Pool := { pool with log := event :: pool.log }

/-- The tally of a name. -/
def tally (pool : Pool) (name : String) : Tally := pool.log.foldl (Tally.add name) {}

/-- The pool with a splitter changed. -/
def change (pool : Pool) (s : SplitterId) (f : Splitter → Splitter) : Pool :=
  { pool with splitters := pool.splitters.modify s f }

/-- The pool with another state of the plan behind a splitter. -/
def setSupply (pool : Pool) (s : SplitterId) (supply : Supply) : Pool :=
  pool.change s fun splitter => { splitter with supply := supply }

/-- The plan behind a splitter, as long as nobody has opened it. -/
def waiting? (pool : Pool) (s : SplitterId) : Option Plan :=
  match pool.splitters[s]?.map Splitter.supply with
  | some (.waiting plan) => some plan
  | _ => none

end Pool

/-- How cursors use the splitters below them: opening the supply of a splitter, and reading it
at a position. -/
structure Access where
  /-- Opens the supply of a splitter unless that has happened. -/
  start : SplitterId → Pool → Except OpError Unit × Pool
  read : SplitterId → Nat → Pool → Outcome × Pool

end GraphShapes
