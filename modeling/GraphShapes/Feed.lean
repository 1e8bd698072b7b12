/-!
# Feeds: finite sequences that may break off

A `Feed ε α` is what a scan or a plan delivers when it is read to the end: items one after the
other, and then either the end or a failure. A failure hides whatever might have followed it, so
a reader that stops early never learns of it, and a reader of the whole feed always does
(`toExcept`).
-/

namespace GraphShapes

/-- A finite sequence of items that ends or breaks off with a failure. -/
inductive Feed (ε α : Type) where
  | done
  /-- The sequence breaks off here. -/
  | failed (failure : ε)
  | next (item : α) (rest : Feed ε α)

namespace Feed

variable {ε α β : Type}

/-- The feed of a list, with a regular end. -/
def ofList : List α → Feed ε α
  | [] => done
  | a :: l => next a (ofList l)

/-- The feed that delivers a list and then breaks off. -/
def breaking (failure : ε) : List α → Feed ε α
  | [] => failed failure
  | a :: l => next a (breaking failure l)

/-- All items, if the feed has a regular end. -/
def toExcept : Feed ε α → Except ε (List α)
  | done => .ok []
  | failed e => .error e
  | next a rest => rest.toExcept.map (a :: ·)

def length : Feed ε α → Nat
  | done => 0
  | failed _ => 0
  | next _ rest => rest.length + 1

def map (f : α → β) : Feed ε α → Feed ε β
  | done => done
  | failed e => failed e
  | next a rest => next (f a) (rest.map f)

def filter (keep : α → Bool) : Feed ε α → Feed ε α
  | done => done
  | failed e => failed e
  | next a rest => if keep a then next a (rest.filter keep) else rest.filter keep

def prepend : List α → Feed ε α → Feed ε α
  | [], feed => feed
  | a :: l, feed => next a (prepend l feed)

/-- Every item replaced by a list of items, which may fail: then the feed breaks off before the
first of them. -/
def expand (f : α → Except ε (List β)) : Feed ε α → Feed ε β
  | done => done
  | failed e => failed e
  | next a rest =>
    match f a with
    | .error e => failed e
    | .ok l => prepend l (rest.expand f)

/-- Whether there is a first item. -/
def nonempty : Feed ε α → Except ε Bool
  | done => .ok false
  | failed e => .error e
  | next _ _ => .ok true

/-- The first `n` items, and whether more follow them. What follows the `n`-th item is looked at,
so a failure there is reported. -/
def takeUpTo : Nat → Feed ε α → Except ε (List α × Bool)
  | 0, feed => feed.nonempty.map ([], ·)
  | _ + 1, done => .ok ([], false)
  | _ + 1, failed e => .error e
  | n + 1, next a rest => (rest.takeUpTo n).map fun (l, more) => (a :: l, more)

end Feed

end GraphShapes
