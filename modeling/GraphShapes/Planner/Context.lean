import GraphShapes.Config
import GraphShapes.Plan
import GraphShapes.Transaction

/-!
# The setting of a planning pass

A pass looks at every target of its source (a *bulk* pass), or only at those that a delta may
affect. The `Frame` is what a shape sees of the shapes above it: the target selectors of the node
shape and the path that holds at this place of the tree.
-/

namespace GraphShapes

/-- The data, the delta and the settings of a planning pass. -/
structure Context where
  /-- The data to validate; after the commit, if there is one. -/
  source : Source
  /-- What the commit changes. -/
  delta : Option Delta := none
  /-- Whether there was no data before the commit. -/
  baseEmpty : Bool := false
  config : Config := {}

namespace Context

/-- A pass over everything in a source. -/
def bulk (source : Source) (config : Config) : Context :=
  { source := source, config := config }

/-- A pass over a pending commit. -/
def incremental (tx : Transaction) (config : Config) : Context where
  source := tx.after
  delta := some tx.delta
  baseEmpty := tx.baseEmpty
  config := config

/-- The context as its sources answer under conditions. -/
def during (ctx : Context) (c : Conditions) : Context where
  source := ctx.source.during (c.part 0)
  delta := ctx.delta.map fun delta => delta.during (c.part 1)
  baseEmpty := ctx.baseEmpty
  config := ctx.config

@[simp] theorem during_constant (ctx : Context) : ctx.during .constant = ctx := by
  obtain ⟨source, delta, baseEmpty, config⟩ := ctx
  cases delta <;> rfl

/-- The delta to which the pass is restricted, unless it looks at everything. -/
def restriction (ctx : Context) : Option Delta :=
  if ctx.config.validateAll then none else ctx.delta

/-- Does the pass look at every target? -/
def isBulk (ctx : Context) : Bool := ctx.restriction.isNone

/-- Which targets a scan delivers where the given path holds. -/
def targetMode (ctx : Context) (path : Option Path) : TargetMode :=
  match ctx.restriction with
  | some delta => .affected delta path
  | none => .all

end Context

/-- What a shape sees of its surroundings. -/
structure Frame where
  targets : List Target
  /-- The path that holds here. -/
  path : Option Path := none

namespace Frame

/-- The frame of the top-level shapes of a node shape. -/
def root (node : NodeShape) : Frame := { targets := node.targets }

/-- The frame with a path that a shape sets, if it sets one. -/
def within (frame : Frame) (path : Option Path) : Frame :=
  { frame with path := path.or frame.path }

/-- The frame inside a shape: its own path wins over the one from above. -/
def enter (frame : Frame) (shape : Shape) : Frame := frame.within shape.path?

end Frame

end GraphShapes
