import GraphShapes.Error
import GraphShapes.Text.Blank
import GraphShapes.Text.Decimal

/-!
# Settings of a validation pass

Settings come from a document or from environment variables. The environment is forgiving: a
variable that cannot be read leaves its setting at the default. `check` refuses settings under
which no pass can be useful.
-/

namespace GraphShapes

/-- The settings of a validation pass. -/
structure Config where
  /-- Whether target sets handed to a disjunction are read once and shared. -/
  cacheSelectNodes : Bool := true
  /-- Whether the plan of every combinator is reported. -/
  printPlans : Bool := false
  /-- Whether a commit is checked on all targets instead of the affected ones. -/
  validateAll : Bool := false
  /-- Whether the first shape with violations ends the pass. -/
  failFast : Bool := false
  /-- How many violations are reported for one shape. -/
  maxViolationsPerShape : Option UInt64 := none
deriving DecidableEq

namespace Config

/-- A set of environment variables. -/
abbrev Environment := List (String × String)

/-- A switch as it is written in the environment: blanks around it and the case of its letters do
not matter. -/
def switch? (text : String) : Option Bool :=
  let word := String.ofList (Text.trimBlanks text.toList |>.map Char.toLower)
  if word ∈ ["1", "true", "yes", "on"] then some true
  else if word ∈ ["0", "false", "no", "off"] then some false
  else none

/-- A count as it is written in the environment: digits, perhaps after a plus sign, for a number
of at most 64 bits. -/
def count? (text : String) : Option UInt64 :=
  let digits := match text.toList with
    | '+' :: rest => rest
    | cs => cs
  match Text.Decimal.number? digits with
  | some n => if n < UInt64.size then some n.toUInt64 else none
  | none => none

/-- The settings that an environment gives, defaults for the rest. -/
def ofEnvironment (env : Environment) : Config :=
  let switch (name : String) (default : Bool) := ((env.lookup name).bind switch?).getD default
  { cacheSelectNodes := switch "SHAPEVAL_CACHE_SELECT_NODES" true
    printPlans := switch "SHAPEVAL_PRINT_PLANS" false
    validateAll := switch "SHAPEVAL_VALIDATE_ALL" false
    failFast := switch "SHAPEVAL_FAIL_FAST" false
    maxViolationsPerShape := (env.lookup "SHAPEVAL_MAX_VIOLATIONS").bind count? }

/-- Refuses settings that can never produce a useful pass. -/
def check (c : Config) : Except Error Unit :=
  if c.maxViolationsPerShape = some 0 then .error (.config .zeroCap) else .ok ()

end Config

end GraphShapes
