import GraphShapes.Text.Quoted

/-!
# Terms and statements

A graph is a set of statements `subject predicate object` over terms. A statement may itself be
quoted as a term, so that a row of results can carry the fact that produced it; any term may
stand in any of the three positions.

Terms are totally ordered: first by kind, in the order of the constructors, then by content, a
quoted statement by its three positions from left to right. Every sorted stream in this library
is sorted by that order, and `Term.least` is below every term.
-/

namespace GraphShapes

/-- What a term is, as far as a datatype constraint can see. -/
inductive TermKind where
  | iri
  | blank
  | str
  | int
  | bool
  | triple
deriving DecidableEq

/-- A node or value of a graph. -/
inductive Term where
  | iri (name : String)
  /-- A node that is known by a local label only. -/
  | blank (label : String)
  | str (text : String)
  | int (value : Int64)
  | bool (value : Bool)
  | triple (subject predicate object : Term)
deriving DecidableEq

/-- A fact of a graph. -/
structure Statement where
  subject : Term
  predicate : Term
  object : Term
deriving DecidableEq

namespace TermKind

def name : TermKind → String
  | iri => "Iri"
  | blank => "Blank"
  | str => "Str"
  | int => "Int"
  | bool => "Bool"
  | triple => "Triple"

/-- Every kind once, in the order of terms. -/
def all : List TermKind := [iri, blank, str, int, bool, triple]

/-- The place of a kind in the order of terms. -/
def rank : TermKind → Nat
  | iri => 0
  | blank => 1
  | str => 2
  | int => 3
  | bool => 4
  | triple => 5

end TermKind

namespace Term

def kind : Term → TermKind
  | iri _ => .iri
  | blank _ => .blank
  | str _ => .str
  | int _ => .int
  | bool _ => .bool
  | triple .. => .triple

/-- A term that is below or equal to every term. -/
def least : Term := iri ""

/-- The relation between an instance and its class. -/
def rdfType : Term := iri "http://www.w3.org/1999/02/22-rdf-syntax-ns#type"

/-- The order of terms: by kind, then by content. -/
def compare : Term → Term → Ordering
  | iri a, iri b => Ord.compare a b
  | blank a, blank b => Ord.compare a b
  | str a, str b => Ord.compare a b
  | int a, int b => Ord.compare a b
  | bool a, bool b => Ord.compare a b
  | triple s p o, triple s' p' o' =>
    (s.compare s').then ((p.compare p').then (o.compare o'))
  | a, b => Ord.compare a.kind.rank b.kind.rank

instance : Ord Term := ⟨Term.compare⟩

/-- The statement that a term quotes, if it quotes one. -/
def statement? : Term → Option Statement
  | triple s p o => some ⟨s, p, o⟩
  | _ => none

/-- The notation of a term in labels: names in angle brackets, texts quoted, a quoted statement
between double angle brackets. -/
def display : Term → String
  | iri s => "<" ++ s ++ ">"
  | blank s => "_:" ++ s
  | str s => Text.quote s
  | int i => toString i
  | bool b => toString b
  | triple s p o => "<< " ++ s.display ++ " " ++ p.display ++ " " ++ o.display ++ " >>"

end Term

namespace Statement

/-- The statement as a term that quotes it. -/
def quoted (st : Statement) : Term := .triple st.subject st.predicate st.object

/-- The order of statements: by subject, then predicate, then object. -/
def compare (a b : Statement) : Ordering :=
  (a.subject.compare b.subject).then
    ((a.predicate.compare b.predicate).then (a.object.compare b.object))

instance : Ord Statement := ⟨Statement.compare⟩

/-- The order of statements by predicate, then object, then subject. -/
def compareByPredicate (a b : Statement) : Ordering :=
  (a.predicate.compare b.predicate).then
    ((a.object.compare b.object).then (a.subject.compare b.subject))

/-- The three terms of a statement, separated by spaces. -/
def display (st : Statement) : String :=
  st.subject.display ++ " " ++ st.predicate.display ++ " " ++ st.object.display

end Statement

end GraphShapes
