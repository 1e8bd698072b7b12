import GraphShapes.Proofs.Planner.Inherited

/-!
# The scope of planned rows

A scan tells whether its targets are all that are selected or those that a commit may affect, and
every operator hands that on. So all rows of a shape that is planned for the selected targets have
one scope, the one of the pass (`Shape.scope_of_collect`).
-/

namespace GraphShapes

theorem Scope.join_self (scope : Scope) : scope.join scope = scope := by
  cases scope <;> rfl

/-- The scope of the targets that the pass looks at. -/
def Context.scope (ctx : Context) : Scope := if ctx.isBulk then .base else .delta

/-- All rows have this scope. -/
def Plan.Scoped (scope : Scope) (p : Plan) : Prop := ∀ r ∈ p.items, r.scope = scope

/-- Rows of one scope that are joined have it as well. -/
theorem Row.inherited_scope (scope : Scope) : Row.Inherited fun r => r.scope = scope where
  columns _ h := h
  afresh h := h
  absorb {a b} ha hb := by
    show a.scope.join b.scope = scope
    rw [ha, hb, Scope.join_self]

theorem Plan.scoped_scan {ctx : Context} (hs : ctx.source.Reliable) (frame : Frame) :
    (ctx.scan frame).Scoped ctx.scope := by
  obtain ⟨terms, -, hitems⟩ := TargetScan.items_eq
    ⟨ctx.source, frame.targets, ctx.targetMode frame.path⟩ hs
  intro r hr
  rw [Context.scan, hitems] at hr
  obtain ⟨t, -, rfl⟩ := List.mem_map.1 hr
  show TargetScan.scope _ = _
  unfold TargetScan.scope Context.targetMode Context.scope Context.isBulk
  cases ctx.restriction <;> rfl

/-- The rows that come of a shape that is planned for the selected targets have the scope of the
pass. -/
theorem Shape.scope_of_collect {ctx : Context} (hs : ctx.source.Reliable) {s : Shape}
    {frame : Frame} {negate : Bool} {draft draft' : Draft} {plan : Plan} {rows : List Row}
    (hplan : (s.plan ctx frame none negate).run.run draft = (.ok (some plan), draft'))
    (hcollect : plan.collect draft'.splitters = .ok rows) : ∀ r ∈ rows, r.scope = ctx.scope := by
  obtain ⟨q, hq, -, rfl⟩ := exists_items .none hplan hcollect
  have hkept : Plan.Kept ctx frame.targets (s.HasLeaf frame.path) (Plan.Scoped ctx.scope)
      (Plan.Scoped ctx.scope) :=
    (Row.inherited_scope ctx.scope).kept hs (fun _ _ _ => Plan.scoped_scan hs _) fun _ hr => hr
  exact s.ensures_kept hkept frame.path negate (fun _ _ hl => hl) none Unshared.offerHas_none _ hq
    q rfl

end GraphShapes
