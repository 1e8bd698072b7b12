import GraphShapes.Term

/-!
# Constraints

A constraint speaks about the values of one target. `datatype` and `oneOf` judge every value on
its own, so that the offending value can be reported; the others judge the values of the target
together and can only report the target.
-/

namespace GraphShapes

/-- What is demanded of a target's values. -/
inductive Constraint where
  /-- Every value is of this kind. -/
  | datatype (kind : TermKind)
  /-- Every value is one of these terms. -/
  | oneOf (allowed : List Term)
  /-- Some value is this term. -/
  | hasValue (wanted : Term)
  | minCount (bound : UInt64)
  | maxCount (bound : UInt64)
deriving DecidableEq

inductive Component where
  | datatype
  | oneOf
  | hasValue
  | minCount
  | maxCount
  | conj
  | disj
  | neg
deriving DecidableEq

namespace Component

def name : Component → String
  | datatype => "DatatypeConstraintComponent"
  | oneOf => "InConstraintComponent"
  | hasValue => "HasValueConstraintComponent"
  | minCount => "MinCountConstraintComponent"
  | maxCount => "MaxCountConstraintComponent"
  | conj => "AndConstraintComponent"
  | disj => "OrConstraintComponent"
  | neg => "NotConstraintComponent"

def all : List Component :=
  [datatype, oneOf, hasValue, minCount, maxCount, conj, disj, neg]

end Component

namespace Constraint

/-- Does the constraint judge every value on its own? -/
def isValueLevel : Constraint → Bool
  | datatype _ => true
  | oneOf _ => true
  | _ => false

/-- Does one value satisfy the constraint, as far as a single value can tell? -/
def accepts (value : Term) : Constraint → Bool
  | datatype kind => value.kind = kind
  | oneOf allowed => allowed.contains value
  | _ => true

/-- Is a target with exactly these values in violation? -/
def violatedBy (values : List Term) : Constraint → Bool
  | hasValue wanted => !values.contains wanted
  | minCount bound => values.length < bound.toNat
  | maxCount bound => bound.toNat < values.length
  | c => values.any fun v => !c.accepts v

def component : Constraint → Component
  | datatype _ => .datatype
  | oneOf _ => .oneOf
  | hasValue _ => .hasValue
  | minCount _ => .minCount
  | maxCount _ => .maxCount

def display : Constraint → String
  | datatype kind => "datatype(" ++ kind.name ++ ")"
  | oneOf allowed => "in(" ++ ", ".intercalate (allowed.map Term.display) ++ ")"
  | hasValue wanted => "hasValue(" ++ wanted.display ++ ")"
  | minCount bound => "minCount(" ++ toString bound ++ ")"
  | maxCount bound => "maxCount(" ++ toString bound ++ ")"

end Constraint

end GraphShapes
