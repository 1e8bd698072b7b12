import GraphShapes.Planner.Planning

/-!
# Focus nodes

The targets that a leaf looks at: those that a provider hands out, made distinct and sorted, or
those that the selectors of the node shape pick, as far as the pass asks for them. The *domain*
of a shape is the union of what its leaves look at.
-/

namespace GraphShapes

/-- The targets that the selectors of the frame pick. -/
def Context.scan (ctx : Context) (frame : Frame) : Plan :=
  .targetScan ⟨ctx.source, frame.targets, ctx.targetMode frame.path⟩

/-- The distinct targets that a provider hands out, in ascending order. -/
def Provider.focus (provider : Provider) : Planning Plan := do
  return .unique (.sort (.trimTo (← provider.request) 1)) none

/-- The targets that a leaf looks at. -/
def Context.focus (ctx : Context) (frame : Frame) : Option Provider → Planning Plan
  | some provider => provider.focus
  | none => pure (ctx.scan frame)

namespace Shape

/-- The union of domains, none of them for no domains. -/
def joinDomains : List Plan → Except OpError Plan
  | [] => .ok (.empty .aggregated)
  | inputs => do return .unique (← Plan.union? inputs) none

mutual

/-- Every target that the shape looks at, whether it satisfies the shape or not. -/
def domain (ctx : Context) : Shape → Frame → Except OpError Plan
  | constraint h _, frame =>
    if h.deactivated then .ok (.empty .aggregated) else .ok (ctx.scan (frame.within h.path))
  | conj h members, frame =>
    if h.deactivated then .ok (.empty .aggregated)
    else do joinDomains (← domains ctx members (frame.within h.path))
  | disj h branches, frame =>
    if h.deactivated then .ok (.empty .aggregated)
    else do joinDomains (← branchDomains ctx branches (frame.within h.path))
  | neg h inner, frame =>
    if h.deactivated then .ok (.empty .aggregated)
    else do joinDomains [← inner.domain ctx (frame.within h.path)]

/-- The domains of several shapes. -/
def domains (ctx : Context) : List Shape → Frame → Except OpError (List Plan)
  | [], _ => .ok []
  | s :: rest, frame => do
    let d ← s.domain ctx frame
    return d :: (← domains ctx rest frame)

/-- The domains of the shapes of all branches. -/
def branchDomains (ctx : Context) : List (List Shape) → Frame → Except OpError (List Plan)
  | [], _ => .ok []
  | b :: rest, frame => do
    let ds ← domains ctx b frame
    return ds ++ (← branchDomains ctx rest frame)

end

end Shape

end GraphShapes
