import GraphShapes.Proofs.Planner.Scope
import GraphShapes.Proofs.Shape.Places

/-!
# When traces are in the order of the tree

Planned for the targets that the node shape selects, a leaf begins the trace of its rows. Planned
for targets that are handed down, it may go on with the trace that these bring along, and then the
trace of a row leads through parts of the tree more than once. Only a disjunction with several
operands hands down targets of its own, its candidates, and not if there was no data before the
commit. And a leaf that looks at single values along a path begins anew in any case.

`Shape.tracesInOrder` checks for a shape tree that every leaf to which targets may be handed down is
such a leaf. Then the trace of every row is a part of the list of all identifiers, innermost first,
in its order (`Shape.ensures_along`).
-/

namespace GraphShapes

open Unshared (Ensures OfferHas)

namespace Shape

/-- Are the operands of a disjunction with branches of these sizes handed targets? A single operand
gets what the disjunction gets. -/
def handsDown (baseEmpty given : Bool) (sizes : List Nat) : Bool :=
  if sizes = [1] then given else given || !baseEmpty

mutual

/-- Do all leaves begin the traces of their rows, if targets are given or not? -/
def tracesInOrder (baseEmpty : Bool) : Shape → (given : Bool) → Option Path → (negate : Bool) → Bool
  | constraint h c, given, path, negate =>
    h.deactivated || !given || (!negate && c.isValueLevel && (h.path.or path).isSome)
  | conj h ms, given, path, negate =>
    h.deactivated || allTracesInOrder baseEmpty ms
      (if negate then handsDown baseEmpty given (ms.map fun _ => 1) else given) (h.path.or path)
      negate
  | disj h bs, given, path, negate =>
    h.deactivated || branchTracesInOrder baseEmpty bs
      (if negate then fun sizes => handsDown baseEmpty given sizes
        else fun _ => handsDown baseEmpty given (bs.map List.length)) (h.path.or path) negate
  | neg h inner, given, path, negate =>
    h.deactivated || inner.tracesInOrder baseEmpty given (h.path.or path) (!negate)

/-- Is that so for all shapes? -/
def allTracesInOrder (baseEmpty : Bool) :
    List Shape → (given : Bool) → Option Path → (negate : Bool) → Bool
  | [], _, _, _ => true
  | s :: rest, given, path, negate =>
    s.tracesInOrder baseEmpty given path negate && allTracesInOrder baseEmpty rest given path negate

/-- Is that so for all members of all branches? Whether they are given targets may depend on the
branch, of which each member counts as an operand. -/
def branchTracesInOrder (baseEmpty : Bool) :
    List (List Shape) → (given : List Nat → Bool) → Option Path → (negate : Bool) → Bool
  | [], _, _, _ => true
  | b :: rest, given, path, negate =>
    allTracesInOrder baseEmpty b (given (b.map fun _ => 1)) path negate &&
      branchTracesInOrder baseEmpty rest given path negate

end

/-- All members of a conjunction pass the check. -/
theorem allTracesInOrder_iff {baseEmpty : Bool} {given : Bool} {path : Option Path}
    {negate : Bool} : ∀ {ms : List Shape}, allTracesInOrder baseEmpty ms given path negate = true ↔
      ∀ m ∈ ms, m.tracesInOrder baseEmpty given path negate = true
  | [] => by simp [allTracesInOrder]
  | m :: ms => by
    rw [allTracesInOrder, Bool.and_eq_true, allTracesInOrder_iff, List.forall_mem_cons]

/-- All members of all branches pass it, each with what its branch is handed. -/
theorem branchTracesInOrder_iff {baseEmpty : Bool} {given : List Nat → Bool} {path : Option Path}
    {negate : Bool} : ∀ {bs : List (List Shape)},
    branchTracesInOrder baseEmpty bs given path negate = true ↔ ∀ b ∈ bs, ∀ m ∈ b,
      m.tracesInOrder baseEmpty (given (b.map fun _ => 1)) path negate = true
  | [] => by simp [branchTracesInOrder]
  | b :: bs => by
    rw [branchTracesInOrder, Bool.and_eq_true, branchTracesInOrder_iff, allTracesInOrder_iff,
      List.forall_mem_cons]

end Shape

/-! ## Plans whose traces are parts of a list -/

namespace Plan

/-- The trace of every row is a part of the list, in its order. -/
def Along (ids : List ShapeId) (p : Plan) : Prop := p.Has fun r => r.trace.Sublist ids

variable {ids ids' : List ShapeId} {p q : Plan}

/-- Being a part of the list is kept by whatever keeps the traces. -/
theorem persists_along (ids : List ShapeId) : Row.Persists fun r => r.trace.Sublist ids where
  columns _ h := h
  afresh _ := List.nil_sublist ids

/-- A part of a list is a part of any longer one. -/
theorem Along.mono (h : p.Along ids) (hle : ids.Sublist ids') : p.Along ids' :=
  Has.mono h fun _ hr => hr.trans hle

/-- Of the rows of one target the traces of the first are kept. -/
theorem Along.distinctTargets (h : p.Along ids) : p.distinctTargets.Along ids :=
  (persists_along ids).distinctTargets h

/-- A join puts the trace on the right behind the one on the left. -/
theorem Along.equalsJoin (h : p.Along ids) (h' : q.Along ids') (allColumns : Bool) :
    (Plan.equalsJoin p q allColumns).Along (ids ++ ids') := by
  intro r hr
  obtain ⟨a, ha, b, hb, n, rfl⟩ := mem_equalsJoin hr
  exact (h a ha).append (h' b hb)

/-- So does an inner join. -/
theorem Along.innerJoin (h : p.Along ids) (h' : q.Along ids') :
    (Plan.innerJoin p q.distinctTargets).Along (ids ++ ids') := by
  intro r hr
  obtain ⟨a, ha, b, hb, rfl⟩ := mem_innerJoin_distinctTargets hr
  exact (h a ha).append (h'.distinctTargets b hb)

/-- Plans along some of the lists, in their order. -/
abbrev AllAlong : List Plan → List (List ShapeId) → Prop :=
  List.SublistForall₂ fun p ids => p.Along ids

/-- Joined from left to right, traces come one after the other. -/
theorem foldl_along {join : Plan → Plan → Plan}
    (hjoin : ∀ {p q ids ids'}, Along ids p → Along ids' q → Along (ids ++ ids') (join p q))
    {ps : List Plan} {lists : List (List ShapeId)} (h : AllAlong ps lists) :
    ∀ {p : Plan} {ids : List ShapeId}, p.Along ids →
      (ps.foldl join p).Along (ids ++ lists.flatten) := by
  induction h with
  | nil => exact fun hp => hp.mono (List.sublist_append_left _ _)
  | cons hq _ ih =>
    intro p ids hp
    rw [List.foldl_cons, List.flatten_cons, ← List.append_assoc]
    exact ih (hjoin hp hq)
  | cons_right _ ih =>
    intro p ids hp
    exact (ih hp).mono ((List.Sublist.refl ids).append (List.sublist_append_right _ _))

/-- The joins of an intersection put the traces of the branches behind one another. -/
theorem along_intersection {layout : Layout} {first : Plan} {rest : List Plan}
    {lists : List (List ShapeId)} (h : AllAlong (first :: rest) lists) :
    (Member.intersection layout first rest).Along lists.flatten := by
  generalize hps : first :: rest = ps at h
  induction h with
  | nil => cases hps
  | cons_right _ ih => exact (ih hps).mono (List.sublist_append_right _ _)
  | @cons p ids ps lists hp hrest _ =>
    cases hps
    have honly : (Plan.union [first]).Along (ids ++ lists.flatten) :=
      (Has.union (List.forall_mem_singleton.2 hp)).mono fun _ hr =>
        hr.trans (List.sublist_append_left _ _)
    cases layout with
    | tripleBased =>
      cases rest with
      | nil => exact Has.unique honly none
      | cons q rest => exact foldl_along (fun h h' => h.equalsJoin h' true) hrest hp
    | aggregated =>
      cases rest with
      | nil => exact honly.distinctTargets
      | cons q rest => exact foldl_along (fun h h' => h.innerJoin h') hrest hp.distinctTargets

end Plan

open Plan (Along AllAlong)

/-! ## Conjunctions and disjunctions -/

namespace Unshared.Member

variable {ctx : Context} {targets : List Target} {path : Option Path} {carried : Bool}
  {ids ids' : List ShapeId}

/-- Planned for any given targets, if it may be given any, the member has traces along the list. -/
abbrev GoesAlong (targets : List Target) (path : Option Path) (carried : Bool)
    (ids : List ShapeId) (m : Member) : Prop :=
  m.Has targets path (fun _ => carried = true) (Along ids)

/-- A member that goes along a list goes along any longer one. -/
theorem GoesAlong.mono {m : Member} (h : m.GoesAlong targets path carried ids)
    (hle : ids.Sublist ids') : m.GoesAlong targets path carried ids' :=
  fun given hgiven => Ensures.mono (h given hgiven) fun _ hp q hq => (hp q hq).mono hle

/-- Branches of which every member goes along the list of its branch. -/
abbrev BranchesAlong (targets : List Target) (path : Option Path) (carried : Bool) :
    List (List Member) → List (List ShapeId) → Prop :=
  List.Forall₂ fun b ids => ∀ m ∈ b, m.GoesAlong targets path carried ids

/-- Every branch goes along its own list. -/
theorem ensures_planBranches_along {given : Option Offer}
    (hgiven : OfferHas (fun _ => carried = true) given) {bs : List (List Member)}
    {lists : List (List ShapeId)} (h : BranchesAlong targets path carried bs lists) :
    Ensures (planBranches ⟨targets, path⟩ given bs) fun plans => AllAlong plans lists := by
  induction h with
  | nil => exact .pure .nil
  | cons hb _ ih =>
    refine (ensures_branch (Plan.persists_along _).unites hb hgiven).bind fun p hp => ?_
    cases p with
    | none => exact ih.mono fun _ hplans => .cons_right hplans
    | some p => exact ih.bind fun plans hplans => .pure (.cons (hp p rfl) hplans)

/-- Their intersection goes along these lists, one behind the other. -/
theorem ensures_intersectBranches_along {given : Option Offer}
    (hgiven : OfferHas (fun _ => carried = true) given) {bs : List (List Member)}
    {lists : List (List ShapeId)} (h : BranchesAlong targets path carried bs lists) :
    Ensures (intersectBranches ⟨targets, path⟩ bs given) fun p =>
      ∀ q ∈ p, q.Along lists.flatten := by
  refine (ensures_planBranches_along hgiven h).bind fun plans hplans => ?_
  cases plans with
  | nil => exact .pure_none
  | cons first rest =>
    have hplan : ∀ layout, Along lists.flatten
        (GraphShapes.Member.intersection layout first rest) :=
      fun _ => Plan.along_intersection hplans
    simp only
    split
    · exact .pure_some (hplan _)
    · exact .pure_some (Plan.Has.relabel (hplan _) _)

/-- With several operands, a disjunction hands down what it is given or its candidates. -/
theorem ensures_candidates_handsDown {frame : Frame} {bs : List (List Member)}
    {given : Option Offer} (hgiven : OfferHas (fun _ => carried = true) given) :
    Ensures (candidates ctx frame bs given) fun r =>
      ∀ given ∈ r, OfferHas (fun _ => (carried || !ctx.baseEmpty) = true) given := by
  -- given targets may be handed down wherever candidates may
  have hmore : ∀ {given : Option Offer}, OfferHas (fun _ => carried = true) given →
      OfferHas (fun _ => (carried || !ctx.baseEmpty) = true) given := fun h q hq => by
    rw [h q hq, Bool.true_or]
  cases given with
  | some given =>
    unfold candidates
    cases ctx.config.cacheSelectNodes with
    | true =>
      cases given with
      | error e => exact .error _
      | ok q => exact .pure_some (hmore hgiven)
    | false => exact .pure_some (hmore hgiven)
  | none =>
    unfold candidates
    cases hbase : ctx.baseEmpty with
    | true => exact .pure_some offerHas_none
    | false =>
      refine Ensures.after fun inputs => ?_
      cases inputs with
      | nil => exact .pure_none
      | cons _ _ => exact .pure_some (offerHas_some (Bool.or_true carried))

variable (path) in
/-- A disjunction goes along the lists of its branches, if these can bear the candidates that are
handed down. -/
theorem ensures_disjunction_along {given : Option Offer}
    (hgiven : OfferHas (fun _ => carried = true) given) {bs : List (List Member)}
    {lists : List (List ShapeId)}
    (h : BranchesAlong targets path
      (Shape.handsDown ctx.baseEmpty carried (bs.map List.length)) bs lists) :
    Ensures (disjunction ctx ⟨targets, path⟩ bs given) fun p =>
      ∀ q ∈ p, q.Along lists.flatten := by
  unfold disjunction
  cases bs.isEmpty || bs.any List.isEmpty with
  | true => exact Ensures.error _
  | false =>
    simp only [Bool.false_eq_true, if_false]
    split
    · next only =>
      -- a single member is forwarded, and nothing is handed down to it but what is given
      have hsame : Shape.handsDown ctx.baseEmpty carried [1] = carried := if_pos rfl
      cases h with
      | @cons _ ids _ _ hm hnil =>
        cases hnil
        have honly : only.GoesAlong targets path carried ids :=
          hsame ▸ hm only (List.mem_singleton_self _)
        rw [List.flatten_cons, List.flatten_nil, List.append_nil]
        exact honly given hgiven
    · next hseveral =>
      have hsizes : bs.map List.length ≠ [1] := by
        intro hsizes
        obtain ⟨b, rfl, hb⟩ := List.map_eq_singleton_iff.1 hsizes
        obtain ⟨m, rfl⟩ := List.length_eq_one_iff.1 hb
        exact hseveral m rfl
      rw [Shape.handsDown, if_neg hsizes] at h
      refine (ensures_candidates_handsDown hgiven).bind fun r hr => ?_
      cases r with
      | none => exact .pure_none
      | some given => exact ensures_intersectBranches_along (hr given rfl) h

/-- Single members as branches. -/
theorem branchesAlong_singletons {ms : List Member} {lists : List (List ShapeId)}
    (h : List.Forall₂ (fun m ids => GoesAlong targets path carried ids m) ms lists) :
    BranchesAlong targets path carried (ms.map fun m => [m]) lists :=
  List.forall₂_map_left_iff.2 (h.imp fun _ _ hm _ hm' => List.mem_singleton.1 hm' ▸ hm)

/-- Each goes along its own list, so all go along the lists one after the other. -/
theorem goesAlong_flatten {ms : List Member} {lists : List (List ShapeId)}
    (h : List.Forall₂ (fun m ids => GoesAlong targets path carried ids m) ms lists) :
    ∀ m ∈ ms, m.GoesAlong targets path carried lists.flatten := by
  induction h with
  | nil => exact fun _ hm => absurd hm List.not_mem_nil
  | cons hm _ ih =>
    refine List.forall_mem_cons.2 ⟨hm.mono (List.sublist_append_left _ _), fun m hm => ?_⟩
    exact (ih m hm).mono (List.sublist_append_right _ _)

/-- A conjunction goes along the lists of its members. -/
theorem ensures_conjunction_along {given : Option Offer}
    (hgiven : OfferHas (fun _ => carried = true) given) {ms : List Member}
    {lists : List (List ShapeId)}
    (h : List.Forall₂ (fun m ids => GoesAlong targets path carried ids m) ms lists) :
    Ensures (conjunction ctx ⟨targets, path⟩ ms given) fun p =>
      ∀ q ∈ p, q.Along lists.flatten :=
  ensures_conjunction (Plan.persists_along _).unites (goesAlong_flatten h) hgiven

/-- The negation of a branch is a disjunction of single members. -/
theorem negatedBranch_goesAlong {ms : List Member} {lists : List (List ShapeId)}
    (h : List.Forall₂ (fun m ids => GoesAlong targets path
      (Shape.handsDown ctx.baseEmpty carried (ms.map fun _ => 1)) ids m) ms lists) :
    (negatedBranch ctx ms).GoesAlong targets path carried lists.flatten := by
  intro given hgiven
  refine ensures_disjunction_along path hgiven ?_
  have hsizes : (ms.map fun m => [m]).map List.length = ms.map fun _ => 1 := List.map_map
  rw [hsizes]
  exact branchesAlong_singletons h

end Unshared.Member

namespace Shape

open Unshared.Member (BranchesAlong)

variable {ctx : Context} {targets : List Target}

/-- Where the leaves begin their traces, the traces of all rows go along the identifiers of the
tree. -/
def GoesAlong (ctx : Context) (targets : List Target) (s : Shape) : Prop :=
  ∀ (carried : Bool) (path : Option Path) (negate : Bool),
    s.tracesInOrder ctx.baseEmpty carried path negate = true →
      (unsharedMember ctx negate s).GoesAlong targets path carried s.ids

/-- The members of a conjunction go along their identifiers. -/
theorem members_goAlong {ms : List Shape} (ih : ∀ m ∈ ms, m.GoesAlong ctx targets)
    {carried : Bool} {path : Option Path} {negate : Bool}
    (h : ∀ m ∈ ms, m.tracesInOrder ctx.baseEmpty carried path negate = true) :
    List.Forall₂ (fun m ids => Unshared.Member.GoesAlong targets path carried ids m)
      (unsharedMembers ctx negate ms) (ms.map ids) := by
  rw [unsharedMembers_eq_map]
  exact forall₂_map_of_forall_mem fun m hm => ih m hm carried path negate (h m hm)

/-- The members of a branch go along the identifiers of the whole branch. -/
theorem branches_goAlong {bs : List (List Shape)}
    (ih : ∀ b ∈ bs, ∀ m ∈ b, m.GoesAlong ctx targets) {carried : Bool} {path : Option Path}
    {negate : Bool}
    (h : ∀ b ∈ bs, ∀ m ∈ b, m.tracesInOrder ctx.baseEmpty carried path negate = true) :
    BranchesAlong targets path carried (unsharedBranches ctx negate bs)
      (bs.map fun b => (b.map ids).flatten) := by
  have hbranches : unsharedBranches ctx negate bs = bs.map (unsharedMembers ctx negate) := by
    rw [unsharedBranches_eq_map]
    exact List.map_congr_left fun b _ => (unsharedMembers_eq_map ctx negate b).symm
  rw [hbranches]
  exact forall₂_map_of_forall_mem fun b hb =>
    Unshared.Member.goesAlong_flatten (members_goAlong (ih b hb) (h b hb))

/-- So do negated branches. -/
theorem negatedBranches_goAlong {bs : List (List Shape)}
    (ih : ∀ b ∈ bs, ∀ m ∈ b, m.GoesAlong ctx targets) {carried : Bool} {path : Option Path}
    (h : ∀ b ∈ bs, ∀ m ∈ b, m.tracesInOrder ctx.baseEmpty
      (handsDown ctx.baseEmpty carried (b.map fun _ => 1)) path true = true) :
    List.Forall₂ (fun m ids => Unshared.Member.GoesAlong targets path carried ids m)
      ((unsharedBranches ctx true bs).map (Unshared.Member.negatedBranch ctx))
      (bs.map fun b => (b.map ids).flatten) := by
  have hbranches : (unsharedBranches ctx true bs).map (Unshared.Member.negatedBranch ctx) =
      bs.map fun b => Unshared.Member.negatedBranch ctx (unsharedMembers ctx true b) := by
    rw [unsharedBranches_eq_map, List.map_map]
    refine List.map_congr_left fun b _ => ?_
    rw [unsharedMembers_eq_map]
    rfl
  rw [hbranches]
  refine forall₂_map_of_forall_mem fun b hb => Unshared.Member.negatedBranch_goesAlong ?_
  have hsizes : (unsharedMembers ctx true b).map (fun _ => 1) = b.map fun _ => 1 := by
    rw [unsharedMembers_eq_map, List.map_map]
    rfl
  rw [hsizes]
  exact members_goAlong (ih b hb) (h b hb)

/-- The identifier of a combinator comes behind those of what it combines. -/
theorem ensures_along_tag {ids : List ShapeId} (top : ShapeId)
    {step : Except PlanError (Option Plan)} (h : Ensures step fun p => ∀ q ∈ p, q.Along ids) :
    Ensures (step >>= fun p => .ok (p.map (Plan.tag · top)))
      fun p => ∀ q ∈ p, q.Along (ids ++ [top]) := by
  exact Unshared.ensures_tag
    (fun hp => Plan.Has.tag hp fun hr => hr.append (List.Sublist.refl [top])) h

/-- The trace has not begun. -/
theorem persists_untraced : Row.Persists fun r => r.trace = [] where
  columns _ h := h
  afresh _ := rfl

/-- The targets that are selected have no trace yet. -/
theorem untraced_scan (hs : ctx.source.Reliable) (frame : Frame) :
    (ctx.scan frame).Has fun r => r.trace = [] := by
  obtain ⟨terms, -, hitems⟩ := TargetScan.items_eq
    ⟨ctx.source, frame.targets, ctx.targetMode frame.path⟩ hs
  intro r hr
  rw [Context.scan, hitems] at hr
  obtain ⟨t, -, rfl⟩ := List.mem_map.1 hr
  rfl

/-- Values along a path begin anew, whatever their targets bring along. -/
theorem untraced_valuesOf (hs : ctx.source.Reliable) (p : Plan) (path : Path) :
    (Plan.valuesOf p ctx.source (some path)).Has fun r => r.trace = [] := by
  intro r hr
  rw [Plan.items_valuesOf hs] at hr
  obtain ⟨row, -, hr⟩ := List.mem_flatMap.1 hr
  obtain ⟨st, -, rfl⟩ := List.mem_map.1 hr
  rfl

section Active

variable (hs : ctx.source.Reliable) {h : ShapeHead} (hd : h.deactivated = false)
include hd

include hs in
/-- A constraint begins a trace, or goes on with one where it may. -/
theorem goesAlong_constraint (c : Constraint) : (constraint h c).GoesAlong ctx targets := by
  intro carried path negate horder given hgiven
  rw [tracesInOrder, hd, Bool.false_or] at horder
  -- rows that come without a trace begin it here
  have hbegins : ∀ {r : Row}, r.trace = [] → (r.tag h.id).trace.Sublist [h.id] := by
    intro r hr
    show (r.trace ++ [h.id]).Sublist [h.id]
    rw [hr]
    exact List.Sublist.refl _
  have hplan : Ensures (Unshared.plan ctx ⟨targets, h.path.or path⟩ h.id c given negate)
      (Along [h.id]) := by
    cases given with
    | none =>
      exact persists_untraced.plan hs (untraced_scan hs _) Unshared.offerHas_none c negate hbegins
    | some offer =>
      cases offer with
      | error e => exact .error _
      | ok q =>
        rw [hgiven q rfl, Bool.not_true, Bool.false_or, Bool.and_eq_true, Bool.and_eq_true,
          Bool.not_eq_true', Option.isSome_iff_exists] at horder
        -- the trace of given targets is dropped only where values on a path are looked up one by one
        obtain ⟨⟨rfl, hv⟩, own, hown⟩ := horder
        refine Ensures.after fun p => .pure (Plan.Has.tag ?_ hbegins)
        show (Unshared.violationsOf ctx _ c p).Has _
        rw [Unshared.violationsOf, if_pos hv, hown]
        exact (untraced_valuesOf hs p own).filter _ _
  show Ensures ((constraint h c).unshared ctx ⟨targets, path⟩ given negate) _
  rw [unshared, hd]
  exact hplan.bind fun p hp => .pure_some hp

/-- A conjunction goes along if its members do. -/
theorem goesAlong_conj {ms : List Shape} (ih : ∀ m ∈ ms, m.GoesAlong ctx targets) :
    (conj h ms).GoesAlong ctx targets := by
  intro carried path negate horder given hgiven
  rw [tracesInOrder, hd, Bool.false_or, allTracesInOrder_iff] at horder
  show Ensures ((conj h ms).unshared ctx ⟨targets, path⟩ given negate) _
  rw [unshared, hd, ids, idsOfAll_eq, List.flatMap_def]
  cases ms.isEmpty with
  | true => exact .error _
  | false =>
    cases negate with
    | false =>
      exact ensures_along_tag h.id
        (Unshared.Member.ensures_conjunction_along hgiven (members_goAlong ih horder))
    | true =>
      refine ensures_along_tag h.id
        (Unshared.Member.ensures_disjunction_along (h.path.or path) hgiven ?_)
      have hsizes : ((unsharedMembers ctx true ms).map fun m => [m]).map List.length =
          ms.map fun _ => 1 := by
        rw [unsharedMembers_eq_map, List.map_map, List.map_map]
        rfl
      rw [hsizes]
      exact Unshared.Member.branchesAlong_singletons (members_goAlong ih horder)

/-- A disjunction goes along if the members of its branches do. -/
theorem goesAlong_disj {bs : List (List Shape)}
    (ih : ∀ b ∈ bs, ∀ m ∈ b, m.GoesAlong ctx targets) : (disj h bs).GoesAlong ctx targets := by
  intro carried path negate horder given hgiven
  rw [tracesInOrder, hd, Bool.false_or, branchTracesInOrder_iff] at horder
  -- the ids of the branches, branch by branch
  have hids : bs.flatten.flatMap ids = (bs.map fun b => (b.map ids).flatten).flatten := by
    rw [List.flatMap_def, List.map_flatten, List.flatten_flatten, List.map_map]
    rfl
  show Ensures ((disj h bs).unshared ctx ⟨targets, path⟩ given negate) _
  rw [unshared, hd, ids, idsOfBranches_eq, hids]
  cases bs.isEmpty with
  | true => exact .error _
  | false =>
    cases bs.any List.isEmpty with
    | true => exact .error _
    | false =>
      cases negate with
      | false =>
        refine ensures_along_tag h.id
          (Unshared.Member.ensures_disjunction_along (h.path.or path) hgiven ?_)
        have hsizes : (unsharedBranches ctx false bs).map List.length = bs.map List.length := by
          rw [unsharedBranches_eq_map, List.map_map]
          exact List.map_congr_left fun b _ => List.length_map _
        rw [hsizes]
        exact branches_goAlong ih horder
      | true =>
        exact ensures_along_tag h.id
          (Unshared.Member.ensures_conjunction_along hgiven (negatedBranches_goAlong ih horder))

/-- A negation goes along if what it negates does. -/
theorem goesAlong_neg {inner : Shape} (ih : inner.GoesAlong ctx targets) :
    (neg h inner).GoesAlong ctx targets := by
  intro carried path negate horder given hgiven
  rw [tracesInOrder, hd, Bool.false_or] at horder
  show Ensures ((neg h inner).unshared ctx ⟨targets, path⟩ given negate) _
  rw [unshared, hd, ids]
  exact ensures_along_tag h.id (ih carried (h.path.or path) (!negate) horder given hgiven)

end Active

/-- What is switched off has no rows. -/
theorem goesAlong_of_deactivated {s : Shape} (hd : s.deactivated = true) :
    s.GoesAlong ctx targets := by
  intro carried path negate _ given _
  show Ensures (s.unshared ctx _ given negate) _
  rw [unshared_of_deactivated hd]
  exact .pure_none

/-- If the leaves of a tree begin the traces of their rows, all traces are in the order of the
tree. -/
theorem ensures_along (hs : ctx.source.Reliable) (targets : List Target) (s : Shape) :
    s.GoesAlong ctx targets := by
  induction s using active_induction with
  | deactivated s hd => exact goesAlong_of_deactivated hd
  | constraint h c hd => exact goesAlong_constraint hs hd c
  | conj h ms hd ih => exact goesAlong_conj hd ih
  | disj h bs hd ih => exact goesAlong_disj hd ih
  | neg h inner hd ih => exact goesAlong_neg hd ih

/-! ## The first commit -/

/-- With no data before the commit, no targets are handed down that were not given. -/
theorem handsDown_baseEmpty (sizes : List Nat) : handsDown true false sizes = false := by
  unfold handsDown
  split <;> rfl

/-- Where there was no data before the commit, no targets are handed down. -/
theorem tracesInOrder_baseEmpty (s : Shape) : ∀ (path : Option Path) (negate : Bool),
    s.tracesInOrder true false path negate = true := by
  induction s using tree_induction with
  | constraint h c =>
    intro path negate
    rw [tracesInOrder, Bool.not_false, Bool.or_true, Bool.true_or]
  | conj h ms ih =>
    intro path negate
    rw [tracesInOrder, handsDown_baseEmpty, ite_self, Bool.or_eq_true, allTracesInOrder_iff]
    exact .inr fun m hm => ih m hm _ negate
  | disj h bs ih =>
    intro path negate
    rw [tracesInOrder, Bool.or_eq_true, branchTracesInOrder_iff]
    refine .inr fun b hb m hm => ?_
    cases negate with
    | true =>
      -- without data before there are no candidates, in whatever polarity
      rw [if_pos rfl, handsDown_baseEmpty]
      exact ih b hb m hm _ true
    | false =>
      rw [if_neg Bool.false_ne_true, handsDown_baseEmpty]
      exact ih b hb m hm _ false
  | neg h inner ih =>
    intro path negate
    rw [tracesInOrder, ih, Bool.or_true]

end Shape

end GraphShapes
