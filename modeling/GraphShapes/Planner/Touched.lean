import GraphShapes.Planner.Context

/-!
# What a delta touches

Before anything is planned, a pass asks whether its delta can bear on a shape at all. It can if
it holds a statement that one of the target selectors looks at, or one with the predicate of the
path that holds at the shape, or if it can bear on a shape below. A shape that is switched off is
never touched. Negation makes no difference.
-/

namespace GraphShapes

/-- Does the delta hold a statement that one of the selectors looks at? -/
def Delta.touchesTargets (delta : Delta) : List Target → Except Error Bool
  | [] => .ok false
  | t :: rest => do
    if ← t.touchedBy delta then return true
    delta.touchesTargets rest

/-- Does the delta bear on the targets, or on their values along the path of the frame? -/
def Frame.touched (frame : Frame) (delta : Delta) : Except Error Bool := do
  if ← delta.touchesTargets frame.targets then return true
  match frame.path with
  | some path => delta.touches { predicate := some path.relation }
  | none => return false

namespace Shape

mutual

/-- Can the delta bear on the shape where the frame is what it sees from above? -/
def touched (delta : Delta) : Shape → Frame → Except Error Bool
  | constraint h _, frame =>
    if h.deactivated then .ok false else (frame.within h.path).touched delta
  | conj h members, frame =>
    if h.deactivated then .ok false
    else do
      if ← (frame.within h.path).touched delta then return true
      anyTouched delta members (frame.within h.path)
  | disj h branches, frame =>
    if h.deactivated then .ok false
    else do
      if ← (frame.within h.path).touched delta then return true
      anyBranchTouched delta branches (frame.within h.path)
  | neg h inner, frame =>
    if h.deactivated then .ok false
    else do
      if ← (frame.within h.path).touched delta then return true
      inner.touched delta (frame.within h.path)

/-- Can the delta bear on one of the shapes? -/
def anyTouched (delta : Delta) : List Shape → Frame → Except Error Bool
  | [], _ => .ok false
  | s :: rest, frame => do
    if ← s.touched delta frame then return true
    anyTouched delta rest frame

/-- Can the delta bear on a shape of one of the branches? -/
def anyBranchTouched (delta : Delta) : List (List Shape) → Frame → Except Error Bool
  | [], _ => .ok false
  | b :: rest, frame => do
    if ← anyTouched delta b frame then return true
    anyBranchTouched delta rest frame

end

end Shape

/-- Can the delta bear on the targets of a node shape or on one of its shapes? -/
def NodeShape.touched (delta : Delta) (node : NodeShape) : Except Error Bool :=
  if node.deactivated then .ok false
  else do
    if ← delta.touchesTargets node.targets then return true
    Shape.anyTouched delta node.shapes (.root node)

end GraphShapes
