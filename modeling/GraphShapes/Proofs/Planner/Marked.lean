import GraphShapes.Proofs.Planner.Scope
import GraphShapes.Proofs.Shape.Places

/-!
# What planned rows carry along

A row of a planned shape has the scope of the pass, it is about a selected target, and its trace is
a trail: every shape on it is active and is followed by the active shapes above it, up to the
planned shape, which comes last (`Shape.ensures_marked`).

The proof follows the shape tree with ever more of the tree above. The candidates of a disjunction
carry traces of its members when they are handed down to these members again, so what is above a
shape on the trace of a given row need not end at the shape that is being planned: it goes on to
the top of the disjunction, or stops just below it.
-/

namespace GraphShapes

open Unshared (Ensures OfferHas)

/-- The row has the scope of the pass, a selected target, and a trail for a trace. -/
structure Row.Marked (ctx : Context) (targets : List Target)
    (above : ShapeId → List ShapeId → Prop) (r : Row) : Prop where
  scope : r.scope = ctx.scope
  selected : r.target ∈ ctx.source.store.selection targets
  trail : Trail above r.trace

namespace Row

variable {ctx : Context} {targets : List Target} {above above' : ShapeId → List ShapeId → Prop}

theorem Marked.mono {r : Row} (h : Marked ctx targets above r)
    (hle : ∀ id ups, above id ups → above' id ups) : Marked ctx targets above' r :=
  ⟨h.scope, h.selected, h.trail.mono hle⟩

/-- Rows that are joined are about one target, and the first trace ends before the second begins. -/
theorem inherited_marked : Row.Inherited (Marked ctx targets above) where
  columns _ h := ⟨h.scope, h.selected, h.trail⟩
  afresh h := ⟨h.scope, h.selected, .nil⟩
  absorb {a b} ha hb := by
    refine ⟨?_, ha.selected, ha.trail.append hb.trail⟩
    show a.scope.join b.scope = ctx.scope
    rw [ha.scope, hb.scope, Scope.join_self]

/-- The row passed through this shape last. -/
def Leaves (top : ShapeId) (r : Row) : Prop := ∃ inner, r.trace = inner ++ [top]

/-- A shape that a row leaves comes last on its trace. -/
theorem Marked.tag {r : Row} {top : ShapeId} (htop : above top [])
    (h : Marked ctx targets (Trail.Inside above top) r) :
    Marked ctx targets above (r.tag top) ∧ (r.tag top).Leaves top :=
  ⟨⟨h.scope, h.selected, h.trail.snoc htop⟩, r.trace, rfl⟩

end Row

open Row (Marked)

theorem Plan.marked_scan {ctx : Context} (hs : ctx.source.Reliable)
    {above : ShapeId → List ShapeId → Prop} (frame : Frame) :
    (ctx.scan frame).Has (Marked ctx frame.targets above) := by
  intro r hr
  have hscope := Plan.scoped_scan hs frame r hr
  have hdelivery : (ctx.scan frame).delivery =
      .ok (TargetScan.rows ⟨ctx.source, frame.targets, ctx.targetMode frame.path⟩) := rfl
  rw [Plan.items_of_delivery hdelivery, TargetScan.rows] at hr
  cases hselect : (TargetScan.mk ctx.source frame.targets (ctx.targetMode frame.path)).select with
  | error e =>
    rw [hselect] at hr
    exact absurd hr List.not_mem_nil
  | ok terms =>
    rw [hselect, Feed.items_ofList] at hr
    obtain ⟨t, ht, rfl⟩ := List.mem_map.1 hr
    exact ⟨hscope, TargetScan.mem_selection_of_select hs hselect ht, .nil⟩

namespace Shape

variable {ctx : Context} {targets : List Target}

/-- Whatever may be above the active places of the shape, all rows of its plans are marked and leave
the shape, if those that are handed down are marked. -/
def Marks (ctx : Context) (targets : List Target) (s : Shape) : Prop :=
  ∀ above : ShapeId → List ShapeId → Prop, (∀ id ups, s.Active id ups → above id ups) →
    ∀ (path : Option Path) (negate : Bool), (unsharedMember ctx negate s).Has targets path
      (Plan.Has (Marked ctx targets above))
      (Plan.Has fun r => Marked ctx targets above r ∧ r.Leaves s.id)

/-- Inside the shape, what is handed down may be marked up to the shape or without it. -/
theorem offerHas_inside {above : ShapeId → List ShapeId → Prop} {given : Option Offer}
    (h : OfferHas (Plan.Has (Marked ctx targets above)) given) (top : ShapeId) :
    OfferHas (Plan.Has (Marked ctx targets (Trail.Inside above top))) given :=
  fun q hq => (h q hq).mono fun _ hr => hr.mono fun _ _ => .inl

theorem ensures_marked_tag {above : ShapeId → List ShapeId → Prop} {top : ShapeId}
    (htop : above top []) {step : Except PlanError (Option Plan)}
    (h : Ensures step fun p => ∀ q ∈ p, q.Has (Marked ctx targets (Trail.Inside above top))) :
    Ensures (step >>= fun p => .ok (p.map (Plan.tag · top)))
      fun p => ∀ q ∈ p, q.Has fun r => Marked ctx targets above r ∧ r.Leaves top := by
  exact Unshared.ensures_tag (fun hp => hp.tag fun hr => hr.tag htop) h

/-- A shape below is marked inside the shape. -/
theorem Marks.inside {s c : Shape} (hd : s.deactivated = false) (hc : c ∈ s.children)
    (ih : c.Marks ctx targets) {above : ShapeId → List ShapeId → Prop}
    (habove : ∀ id ups, s.Active id ups → above id ups) (path : Option Path) (negate : Bool) :
    (unsharedMember ctx negate c).Has targets path
      (Plan.Has (Marked ctx targets (Trail.Inside above s.id)))
      (Plan.Has (Marked ctx targets (Trail.Inside above s.id))) :=
  fun given hgiven => (ih _ (fun _ _ h => .inr (habove _ _ (.inside hd hc h))) path negate given
    hgiven).mono fun _ hp q hq => (hp q hq).mono fun _ hr => hr.1

section Active

variable (hs : ctx.source.Reliable) {h : ShapeHead} (hd : h.deactivated = false)
include hd

include hs in
theorem marks_constraint (c : Constraint) : (constraint h c).Marks ctx targets := by
  intro above habove path negate given hgiven
  have htop : above h.id [] := habove _ _ (.here (s := constraint h c) hd)
  show Ensures ((constraint h c).unshared ctx ⟨targets, path⟩ given negate) _
  rw [unshared, hd]
  have hplan : Ensures (Unshared.plan ctx ⟨targets, h.path.or path⟩ h.id c given negate)
      (Plan.Has fun r => Marked ctx targets above r ∧ r.Leaves h.id) :=
    Row.inherited_marked.plan hs (Plan.marked_scan hs _) (offerHas_inside hgiven h.id) c negate
      fun hr => hr.tag htop
  exact hplan.bind fun p hp => .pure_some hp

theorem marks_conj {ms : List Shape} (ih : ∀ m ∈ ms, m.Marks ctx targets) :
    (conj h ms).Marks ctx targets := by
  intro above habove path negate given hgiven
  -- the rows get the mark of the conjunction on top of those of its members
  have htop : above h.id [] := habove _ _ (.here (s := conj h ms) hd)
  have hgiven := offerHas_inside hgiven h.id
  have hms : ∀ negate, ∀ m ∈ unsharedMembers ctx negate ms,
      m.Has targets (h.path.or path) (Plan.Has (Marked ctx targets (Trail.Inside above h.id)))
        (Plan.Has (Marked ctx targets (Trail.Inside above h.id))) := by
    intro negate m hm
    rw [unsharedMembers_eq_map] at hm
    obtain ⟨m', hm', rfl⟩ := List.mem_map.1 hm
    exact Marks.inside (s := conj h ms) hd hm' (ih m' hm') habove _ negate
  show Ensures ((conj h ms).unshared ctx ⟨targets, path⟩ given negate) _
  rw [unshared, hd]
  cases ms.isEmpty with
  | true => exact .error _
  | false =>
    cases negate with
    | false =>
      exact ensures_marked_tag htop (Unshared.Member.ensures_conjunction
        Row.inherited_marked.combines.unite (hms false) hgiven)
    | true =>
      exact ensures_marked_tag htop (Unshared.Member.ensures_disjunction
        Row.inherited_marked.combines (Unshared.Member.has_singletons (hms true)) hgiven)

theorem marks_disj {bs : List (List Shape)} (ih : ∀ b ∈ bs, ∀ m ∈ b, m.Marks ctx targets) :
    (disj h bs).Marks ctx targets := by
  intro above habove path negate given hgiven
  -- the rows get the mark of the disjunction on top of those of its members
  have htop : above h.id [] := habove _ _ (.here (s := disj h bs) hd)
  have hgiven := offerHas_inside hgiven h.id
  have hbs : ∀ negate, ∀ b ∈ unsharedBranches ctx negate bs, ∀ m ∈ b,
      m.Has targets (h.path.or path) (Plan.Has (Marked ctx targets (Trail.Inside above h.id)))
        (Plan.Has (Marked ctx targets (Trail.Inside above h.id))) := by
    intro negate b hb m hm
    rw [unsharedBranches_eq_map] at hb
    obtain ⟨b', hb', rfl⟩ := List.mem_map.1 hb
    obtain ⟨m', hm', rfl⟩ := List.mem_map.1 hm
    exact Marks.inside (s := disj h bs) hd (List.mem_flatten.2 ⟨b', hb', hm'⟩) (ih b' hb' m' hm')
      habove _ negate
  show Ensures ((disj h bs).unshared ctx ⟨targets, path⟩ given negate) _
  rw [unshared, hd]
  cases bs.isEmpty with
  | true => exact .error _
  | false =>
    cases bs.any List.isEmpty with
    | true => exact .error _
    | false =>
      cases negate with
      | false =>
        exact ensures_marked_tag htop (Unshared.Member.ensures_disjunction
          Row.inherited_marked.combines (hbs false) hgiven)
      | true =>
        refine ensures_marked_tag htop (Unshared.Member.ensures_conjunction
          Row.inherited_marked.combines.unite (fun m hm => ?_) hgiven)
        obtain ⟨b, hb, rfl⟩ := List.mem_map.1 hm
        exact Unshared.Member.has_negatedBranch Row.inherited_marked.combines (hbs true b hb)

theorem marks_neg {inner : Shape} (ih : inner.Marks ctx targets) :
    (neg h inner).Marks ctx targets := by
  intro above habove path negate given hgiven
  have htop : above h.id [] := habove _ _ (.here (s := neg h inner) hd)
  show Ensures ((neg h inner).unshared ctx ⟨targets, path⟩ given negate) _
  rw [unshared, hd]
  exact ensures_marked_tag htop (Marks.inside (s := neg h inner) hd (List.mem_singleton_self _) ih
    habove (h.path.or path) (!negate) given (offerHas_inside hgiven h.id))

end Active

theorem marks_of_deactivated {s : Shape} (hd : s.deactivated = true) : s.Marks ctx targets := by
  intro above _ path negate given _
  show Ensures (s.unshared ctx _ given negate) _
  rw [unshared_of_deactivated hd]
  exact .pure_none

/-- All rows of the plans of a shape are marked and leave the shape, if those that are handed down
are marked. -/
theorem ensures_marked (hs : ctx.source.Reliable) (targets : List Target) (s : Shape) :
    s.Marks ctx targets := by
  induction s using active_induction with
  | deactivated s hd => exact marks_of_deactivated hd
  | constraint h c hd => exact marks_constraint hs hd c
  | conj h ms hd ih => exact marks_conj hd ih
  | disj h bs hd ih => exact marks_disj hd ih
  | neg h inner hd ih => exact marks_neg hd ih

end Shape

end GraphShapes
