import GraphShapes.Source
import GraphShapes.Term.Outline

/-!
# Target selectors

A selector picks the terms of a graph that a shape is about. Besides the selection itself there
are three cheaper questions: whether one term is selected (`contains`), which terms a commit may
have moved in or out of the selection (`affected`), and whether there can be any such term
(`touchedBy`).
-/

namespace GraphShapes

/-- How targets are chosen. -/
inductive Target where
  | instancesOf (cls : Term)
  /-- The listed nodes, whether or not the graph knows them. -/
  | nodes (listed : List Term)
  | subjectsOf (relation : Term)
  | objectsOf (relation : Term)
deriving DecidableEq

/-- A set of terms in ascending order. -/
abbrev Selection := List Term

/-- The distinct terms of a list in ascending order. -/
def Selection.ofList (terms : List Term) : Selection := Ordered.ofList Term.compare terms

/-- The selection with further terms. -/
def Selection.addAll (selection : Selection) (terms : List Term) : Selection :=
  Ordered.insertAll Term.compare selection terms

/-- Does some statement have the node as its subject or object? A path can start at either. -/
def Source.mentions (source : Source) (node : Term) : Except Error Bool := do
  if ← source.hasMatch { subject := some node } then return true
  source.hasMatch { object := some node }

namespace Target

/-- Every term that the selector picks out of a source. -/
def select (source : Source) : Target → Except Error Selection
  | instancesOf c => do
    let hits ← source.hits { predicate := some Term.rdfType, object := some c }
    return .ofList (hits.map Statement.subject)
  | nodes listed => .ok (.ofList listed)
  | subjectsOf p => do
    return .ofList ((← source.hits { predicate := some p }).map Statement.subject)
  | objectsOf p => do
    return .ofList ((← source.hits { predicate := some p }).map Statement.object)

def contains (source : Source) (term : Term) : Target → Except Error Bool
  | instancesOf c => source.hasMatch ⟨some term, some Term.rdfType, some c⟩
  | nodes listed => .ok (listed.contains term)
  | subjectsOf p => source.hasMatch ⟨some term, some p, none⟩
  | objectsOf p => source.hasMatch ⟨none, some p, some term⟩

/-- The terms of one side of a delta whose selection that side bears on. -/
def affectedBySide (side : Source) : Target → Except Error (List Term)
  | nodes listed => listed.filterM side.mentions
  | target => target.select side

/-- The terms whose selection may change with a delta. -/
def affected (delta : Delta) (target : Target) : Except Error Selection := do
  let new ← target.affectedBySide delta.added
  let gone ← target.affectedBySide delta.removed
  return (Selection.ofList new).addAll gone

/-- Does one of the listed nodes occur in the delta? -/
def anyMentioned (delta : Delta) : List Term → Except Error Bool
  | [] => .ok false
  | node :: rest => do
    if ← delta.added.mentions node then return true
    if ← delta.removed.mentions node then return true
    anyMentioned delta rest

/-- Does the delta hold a statement that the selector looks at? -/
def touchedBy (delta : Delta) : Target → Except Error Bool
  | instancesOf c => delta.touches { predicate := some Term.rdfType, object := some c }
  | nodes listed => anyMentioned delta listed
  | subjectsOf p => delta.touches { predicate := some p }
  | objectsOf p => delta.touches { predicate := some p }

def outline : Target → String
  | instancesOf c => "Class(" ++ c.outline ++ ")"
  | nodes listed => "Node([" ++ ", ".intercalate (listed.map Term.outline) ++ "])"
  | subjectsOf p => "SubjectsOf(" ++ p.outline ++ ")"
  | objectsOf p => "ObjectsOf(" ++ p.outline ++ ")"

end Target

end GraphShapes
