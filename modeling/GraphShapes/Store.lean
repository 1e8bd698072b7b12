import GraphShapes.Ordered
import GraphShapes.Term.Order

/-!
# Statement stores

A store is a finite set of statements, kept in two orders: by subject, and by predicate. A scan
asks for the statements with given terms in some positions. It is answered from the order in
which the answers lie next to each other, and delivers them in that order: by predicate and
object for a given subject, by object and subject for a given predicate alone, and in the order
of statements otherwise.

A store carries the proof that both lists are ascending and hold the same statements, so no
operation and no statement about stores has to assume it.
-/

namespace GraphShapes

/-- The positions that a scan fixes. -/
structure Pattern where
  subject : Option Term := none
  predicate : Option Term := none
  object : Option Term := none
deriving DecidableEq

/-- Does a term stand at a position that may be fixed? -/
def Pattern.admits : Option Term → Term → Bool
  | none, _ => true
  | some t, u => t = u

/-- Does the statement have the given term in every fixed position? -/
def Pattern.fits (p : Pattern) (st : Statement) : Bool :=
  admits p.subject st.subject && admits p.predicate st.predicate && admits p.object st.object

/-- A set of statements in two orders. -/
structure Store where
  /-- The statements by subject, predicate, object. -/
  bySubject : List Statement
  /-- The same statements by predicate, object, subject. -/
  byPredicate : List Statement
  ascending : Ordered.Ascending Statement.compare bySubject
  ascendingByPredicate : Ordered.Ascending Statement.compareByPredicate byPredicate
  agree : ∀ st, st ∈ byPredicate ↔ st ∈ bySubject
deriving DecidableEq

namespace Store

/-- The store without statements. -/
def empty : Store := ⟨[], [], Ordered.ascending_nil, Ordered.ascending_nil, fun _ => Iff.rfl⟩

/-- Is the statement in the store? -/
def contains (s : Store) (st : Statement) : Bool :=
  Ordered.contains Statement.compare st s.bySubject

/-- The store with the statement. -/
def insert (s : Store) (st : Statement) : Store :=
  if s.contains st then s
  else
    { bySubject := Ordered.insert Statement.compare st s.bySubject
      byPredicate := Ordered.insert Statement.compareByPredicate st s.byPredicate
      ascending := Ordered.ascending_insert s.ascending
      ascendingByPredicate := Ordered.ascending_insert s.ascendingByPredicate
      agree := fun x => by rw [Ordered.mem_insert, Ordered.mem_insert, s.agree] }

/-- The store without the statement. -/
def remove (s : Store) (st : Statement) : Store :=
  if s.contains st then
    { bySubject := Ordered.erase Statement.compare st s.bySubject
      byPredicate := Ordered.erase Statement.compareByPredicate st s.byPredicate
      ascending := Ordered.ascending_erase s.ascending
      ascendingByPredicate := Ordered.ascending_erase s.ascendingByPredicate
      agree := fun x => by
        rw [Ordered.mem_erase s.ascending, Ordered.mem_erase s.ascendingByPredicate, s.agree] }
  else s

/-- The store with every statement of a list. -/
def extend (s : Store) (sts : List Statement) : Store := sts.foldl insert s

/-- The store of the statements of a list. -/
def ofList (sts : List Statement) : Store := empty.extend sts

/-- All statements in order. -/
def toList (s : Store) : List Statement := s.bySubject

/-- The number of statements. -/
def size (s : Store) : Nat := s.bySubject.length

/-- Has the store no statement? -/
def isEmpty (s : Store) : Bool := s.bySubject.isEmpty

/-- The statements that fit a pattern, in the order of the index that holds them side by side. -/
def scan (s : Store) (p : Pattern) : List Statement :=
  match p.subject, p.predicate with
  | some subject, _ =>
    let lower : Statement := ⟨subject, Term.least, Term.least⟩
    ((s.bySubject.dropWhile fun st => (Statement.compare st lower).isLT).takeWhile
      fun st => st.subject = subject).filter p.fits
  | none, some predicate =>
    let lower : Statement := ⟨Term.least, predicate, p.object.getD Term.least⟩
    (s.byPredicate.dropWhile fun st => (Statement.compareByPredicate st lower).isLT).takeWhile
      fun st => st.predicate = predicate && Pattern.admits p.object st.object
  | none, none => s.bySubject.filter p.fits

/-- Does some statement fit the pattern? -/
def hasMatch (s : Store) (p : Pattern) : Bool := !(s.scan p).isEmpty

end Store

end GraphShapes
