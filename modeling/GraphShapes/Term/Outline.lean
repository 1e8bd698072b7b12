import GraphShapes.Term

/-!
# The constructor notation of terms

Labels of target scans and diagnostics show a term by its structure: the name of its kind with
the content in parentheses, strings quoted, and a quoted statement with its three positions
named.
-/

namespace GraphShapes

/-- A statement shown by its structure, given its three positions shown that way. -/
def Statement.outlineOf (subject predicate object : String) : String :=
  "Statement \x7b subject: " ++ subject ++ ", predicate: " ++ predicate ++ ", object: " ++
    object ++ " \x7d"

/-- A term shown by its structure. -/
def Term.outline : Term → String
  | iri s => "Iri(" ++ Text.quote s ++ ")"
  | blank s => "Blank(" ++ Text.quote s ++ ")"
  | str s => "Str(" ++ Text.quote s ++ ")"
  | int i => "Int(" ++ toString i ++ ")"
  | bool b => "Bool(" ++ toString b ++ ")"
  | triple s p o => "Triple(" ++ Statement.outlineOf s.outline p.outline o.outline ++ ")"

/-- A statement shown by its structure. -/
def Statement.outline (st : Statement) : String :=
  Statement.outlineOf st.subject.outline st.predicate.outline st.object.outline

end GraphShapes
