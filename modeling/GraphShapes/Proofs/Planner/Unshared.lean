import GraphShapes.Planner
import GraphShapes.Proofs.Planner.Layout

/-!
# Planning without splitters

`Shape.plan` allots splitters and reports plans while it works, and its plans read the splitters
by number. For statements about *what is delivered* all of that is in the way. The definitions of
this file plan the same operators with the supply of a splitter written out wherever the splitter
would be read: no state, and plans that mean something by themselves. Only a provider that refuses
and a delta that cannot be read are left to fail, and shapes that are malformed: the operators
that combine plans never refuse what the planner gives them.

They follow the planner definition by definition, from constraints (`Unshared.plan`) through
conjunctions and disjunctions (`Unshared.Member`) to shapes (`Shape.unshared`). That the two agree
is proved beside the relation that compares them; everything about rows is proved here.
-/

namespace GraphShapes

/-- What hands out targets: a plan, unless it refuses. -/
abbrev Offer := Except OpError Plan

namespace Unshared

/-- A step that may fail like an operator. -/
def ofOp {α : Type} (x : Except OpError α) : Except PlanError α := x.mapError .op

/-- A step that may fail like the data layer. -/
def ofError {α : Type} (x : Except Error α) : Except PlanError α := x.mapError Error.toPlan

/-! ## Constraints -/

/-- The targets that a leaf looks at. -/
def focus (ctx : Context) (frame : Frame) : Option Offer → Except PlanError Plan
  | some given => do return .unique (.sort (.trimTo (← ofOp given) 1)) none
  | none => .ok (ctx.scan frame)

/-- The violations of a constraint among the targets of a plan. -/
def violationsOf (ctx : Context) (frame : Frame) (c : Constraint) (targets : Plan) : Plan :=
  if c.isValueLevel then
    .filter (.valuesOf targets ctx.source frame.path) c.display c.rejects
  else
    .countValues targets (.valuesOf targets ctx.source frame.path) c.display
      fun values => c.violatedBy values

/-- The targets of a plan without a violation of the constraint. -/
def satisfactionsOf (ctx : Context) (frame : Frame) (c : Constraint) (targets : Plan) : Plan :=
  .antiJoin targets
    (violationsOf ctx frame c (.unique (.sort (.trimTo targets 1)) none)).distinctTargets

/-- Plans the violations of a constraint, or of its negation, under a shape's number. -/
def plan (ctx : Context) (frame : Frame) (id : ShapeId) (c : Constraint) (given : Option Offer)
    (negate : Bool) : Except PlanError Plan := do
  let targets ← focus ctx frame given
  return .tag
    (if negate then satisfactionsOf ctx frame c targets else violationsOf ctx frame c targets) id

/-! ## Conjunctions and disjunctions -/

/-- A part of a conjunction. -/
structure Member where
  /-- Plans its violations; nothing if it is switched off. -/
  plan : Frame → Option Offer → Except PlanError (Option Plan)
  /-- Does it set a path other than the one it would inherit? -/
  hasOwnPath : Option Path → Bool
  /-- Can a delta bear on it? -/
  touched : Frame → Delta → Except Error Bool

namespace Member

/-- Plans a member unless the delta cannot bear on it. -/
def planTouched (ctx : Context) (frame : Frame) (m : Member) : Except PlanError (Option Plan) :=
  match ctx.restriction with
  | none => m.plan frame none
  | some delta => do
    if ← ofError (m.touched frame delta) then m.plan frame none else return none

/-- The plans of the members that have one, and whether one of those members has its own path. -/
def planEach (frame : Frame) (plan : Member → Except PlanError (Option Plan)) :
    List Member → Except PlanError (List Plan × Bool)
  | [] => return ([], false)
  | m :: rest => do
    match ← plan m with
    | none => planEach frame plan rest
    | some p =>
      let (plans, ownPath) ← planEach frame plan rest
      return (p :: plans, m.hasOwnPath frame.path || ownPath)

/-- The union of the members' plans without repetitions. -/
def unite (frame : Frame) (plan : Member → Except PlanError (Option Plan))
    (members : List Member) : Except PlanError (Option Plan) := do
  let (plans, ownPath) ← planEach frame plan members
  if plans.isEmpty then return none
  return some (.unique (.union (GraphShapes.Member.unionInputs plans ownPath)) none)

/-- Plans the violations of any member, leaving out what the delta cannot bear on. -/
def conjunction (ctx : Context) (frame : Frame) (members : List Member)
    (given : Option Offer) : Except PlanError (Option Plan) :=
  unite frame (fun m => match given with
    | none => m.planTouched ctx frame
    | some _ => m.plan frame given) members

/-- Plans the violations of any member of a branch. -/
def branch (frame : Frame) (members : List Member) (given : Option Offer) :
    Except PlanError (Option Plan) :=
  unite frame (fun m => m.plan frame given) members

/-- The violators of some branch, each branch planned by itself. -/
def candidatesOf (ctx : Context) (frame : Frame) : List (List Member) → Except PlanError (List Plan)
  | [] => return []
  | b :: rest => do
    match ← conjunction ctx frame b none with
    | none => candidatesOf ctx frame rest
    | some p => return p.trimTo 1 :: (← candidatesOf ctx frame rest)

/-- Where the branches of a disjunction get their targets from; nothing if there are none. -/
def candidates (ctx : Context) (frame : Frame) (branches : List (List Member)) :
    Option Offer → Except PlanError (Option (Option Offer))
  | some given => do
    if ctx.config.cacheSelectNodes then return some (some (.ok (← ofOp given)))
    else return some (some given)
  | none => do
    if ctx.baseEmpty then return some none
    let inputs ← candidatesOf ctx frame branches
    if inputs.isEmpty then return none
    return some (some (.ok (.unique (.union inputs) none)))

/-- The plans of the branches that have one. -/
def planBranches (frame : Frame) (given : Option Offer) :
    List (List Member) → Except PlanError (List Plan)
  | [] => return []
  | b :: rest => do
    match ← branch frame b given with
    | none => planBranches frame given rest
    | some p => return p :: (← planBranches frame given rest)

/-- The intersection of the branches' plans for some targets. -/
def intersectBranches (frame : Frame) (branches : List (List Member))
    (given : Option Offer) : Except PlanError (Option Plan) := do
  let ownPath := branches.any fun b => b.any fun m => m.hasOwnPath frame.path
  match ← planBranches frame given branches with
  | [] => return none
  | first :: rest =>
    let layout := GraphShapes.Member.commonLayout (first :: rest) ownPath
    let plan := GraphShapes.Member.intersection layout first rest
    match layout with
    | .tripleBased => return some plan
    | .aggregated => return some (.relabel plan .aggregated)

/-- Plans the violations of every branch. A single branch with a single member is that member. -/
def disjunction (ctx : Context) (frame : Frame) (branches : List (List Member))
    (given : Option Offer) : Except PlanError (Option Plan) := do
  if branches.isEmpty || branches.any List.isEmpty then throw (.malformed .bareDisjunction)
  match branches with
  | [[only]] => only.plan frame given
  | _ =>
    match ← candidates ctx frame branches given with
    | none => return none
    | some targets => intersectBranches frame branches targets

/-- The negation of a branch: a disjunction of the negations of its members. -/
def negatedBranch (ctx : Context) (negations : List Member) : Member where
  plan frame given := disjunction ctx frame (negations.map fun m => [m]) given
  hasOwnPath inherited := negations.any fun m => m.hasOwnPath inherited
  touched frame delta := anyTouched frame delta negations
where
  /-- Can the delta bear on one of the members? -/
  anyTouched (frame : Frame) (delta : Delta) : List Member → Except Error Bool
    | [] => .ok false
    | m :: rest => do
      if ← m.touched frame delta then return true
      anyTouched frame delta rest

end Member

end Unshared

namespace Shape

mutual

/-- Plans the violations of the shape, or of its negation, with every supply written out. -/
def unshared (ctx : Context) :
    Shape → Frame → Option Offer → Bool → Except PlanError (Option Plan)
  | constraint h c, frame, given, negate => do
    if h.deactivated then return none
    return some (← Unshared.plan ctx (frame.within h.path) h.id c given negate)
  | conj h ms, frame, given, negate => do
    if h.deactivated then return none
    if ms.isEmpty then throw (.malformed (.noMembers h.id))
    let plan ←
      if negate then
        Unshared.Member.disjunction ctx (frame.within h.path)
          ((unsharedMembers ctx true ms).map fun m => [m]) given
      else
        Unshared.Member.conjunction ctx (frame.within h.path) (unsharedMembers ctx false ms) given
    return plan.map (Plan.tag · h.id)
  | disj h bs, frame, given, negate => do
    if h.deactivated then return none
    if bs.isEmpty then throw (.malformed (.noBranches h.id))
    if bs.any List.isEmpty then throw (.malformed (.emptyBranch h.id))
    let plan ←
      if negate then
        Unshared.Member.conjunction ctx (frame.within h.path)
          ((unsharedBranches ctx true bs).map (Unshared.Member.negatedBranch ctx)) given
      else
        Unshared.Member.disjunction ctx (frame.within h.path) (unsharedBranches ctx false bs) given
    return plan.map (Plan.tag · h.id)
  | neg h inner, frame, given, negate => do
    if h.deactivated then return none
    return (← inner.unshared ctx (frame.within h.path) given (!negate)).map (Plan.tag · h.id)

/-- Shapes as parts of a conjunction, negated or not. -/
def unsharedMembers (ctx : Context) (negate : Bool) : List Shape → List Unshared.Member
  | [] => []
  | s :: rest =>
    { plan := fun frame given => s.unshared ctx frame given negate
      hasOwnPath := fun inherited => s.hasOwnPath inherited
      touched := fun frame delta => s.touched delta frame } :: unsharedMembers ctx negate rest

/-- The shapes of several branches as parts of conjunctions, negated or not. -/
def unsharedBranches (ctx : Context) (negate : Bool) :
    List (List Shape) → List (List Unshared.Member)
  | [] => []
  | b :: rest => unsharedMembers ctx negate b :: unsharedBranches ctx negate rest

end

end Shape

end GraphShapes
