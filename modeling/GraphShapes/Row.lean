import GraphShapes.ShapeId
import GraphShapes.Term

/-!
# Result rows

A row says something about a *target*, its first column. The second column, if any, is a value
of the target, the third the quoted statement that led there. Rows are compared and deduplicated
by their columns alone; the scope and the trace of shape identifiers ride along for reporting.

Every stream of rows declares a `Layout`: whether all three columns carry meaning or only the
target does.
-/

namespace GraphShapes

/-- Which columns of a stream carry meaning. -/
inductive Layout where
  /-- Target, value and provenance. -/
  | tripleBased
  /-- The target, perhaps a value; no provenance. -/
  | aggregated
deriving DecidableEq

namespace Layout

def name : Layout → String
  | tripleBased => "TripleBased"
  | aggregated => "Aggregated"

/-- The most that two layouts have in common. -/
def meet (a b : Layout) : Layout := if a = b then a else aggregated

/-- The most that all layouts of a list have in common; nothing for the empty list. -/
def reconcile : List Layout → Option Layout
  | [] => none
  | a :: rest => some (rest.foldl meet a)

end Layout

/-- Whether a row is about data that a commit touches. -/
inductive Scope where
  | base
  | delta
deriving DecidableEq

namespace Scope

def name : Scope → String
  | base => "Base"
  | delta => "Delta"

/-- The scope of two rows joined: `delta` as soon as one of them is. -/
def join : Scope → Scope → Scope
  | _, delta => delta
  | a, base => a

end Scope

/-- One result row. The target column always exists. -/
structure Row where
  /-- The node that the row is about. -/
  target : Term
  /-- The columns after the target. -/
  others : List Term := []
  scope : Scope := .base
  /-- The shapes that the row passed through, innermost first. -/
  trace : List ShapeId := []

namespace Row

/-- The row of a target with a value and the statement that links them. -/
def ofStatement (target value : Term) (provenance : Statement) : Row :=
  ⟨target, [value, provenance.quoted], .base, []⟩

/-- The row with the given columns; none without a target column. -/
def ofLine? : List Term → Option Row
  | [] => none
  | target :: others => some ⟨target, others, .base, []⟩

def line (row : Row) : List Term := row.target :: row.others

def width (row : Row) : Nat := row.line.length

def value? (row : Row) : Option Term := row.others.head?

/-- The provenance column, if it quotes a statement. -/
def provenance? (row : Row) : Option Statement := row.others[1]? >>= Term.statement?

/-- The first columns, at most `n` of them. -/
def key (row : Row) (n : Nat) : List Term := row.line.take n

/-- The columns by which a stage compares rows: the first `n`, or all. -/
def keyOf (width : Option Nat) (row : Row) : List Term :=
  match width with
  | some n => row.key n
  | none => row.line

/-- The row cut to its first `n` columns; the target always stays. -/
def trim (n : Nat) (row : Row) : Row := { row with others := row.others.take (n - 1) }

/-- The target with one value, all other columns gone. -/
def withValue (value : Term) (row : Row) : Row := { row with others := [value] }

/-- The row with further columns at its end. -/
def extend (columns : List Term) (row : Row) : Row := { row with others := row.others ++ columns }

/-- The row with one more shape on its trace. -/
def tag (id : ShapeId) (row : Row) : Row := { row with trace := row.trace ++ [id] }

/-- The row with the trace and the scope of a row that it was joined with. -/
def absorb (row other : Row) : Row :=
  { row with trace := row.trace ++ other.trace, scope := row.scope.join other.scope }

/-- The order of column lists: column by column, a proper beginning first. -/
def compareLines (a b : List Term) : Ordering := List.compareLex Term.compare a b

/-- The order of rows is that of their columns. -/
def compare (a b : Row) : Ordering := compareLines a.line b.line

end Row

end GraphShapes
