import GraphShapes.Proofs.Planner.Delivery
import GraphShapes.Proofs.Planner.Layout

/-!
# What combined plans show

If plans show tables, then the plans that the planner combines from them show the tables that are
combined in the same way: `shows_union` for the members of a conjunction, `delivers_intersection`
for the branches of a disjunction.

The planner and the tables agree on the layout in which they combine (`Shows.commonLayout_eq`).
Whole lines are intersected by equality joins; where only targets count, they are intersected by
inner joins of distinct targets, and both are intersections of the lines under the common layout
(`Table.linesAs`).
-/

namespace GraphShapes

namespace Layout

theorem eq_of_iff {a b : Layout} (h : a = .tripleBased ↔ b = .tripleBased) : a = b := by
  cases a with
  | tripleBased => exact (h.1 rfl).symm
  | aggregated =>
    cases b with
    | tripleBased => exact h.2 rfl
    | aggregated => rfl

end Layout

theorem targetLines_inter (T T' : Finset Term) :
    targetLines (T ∩ T') = targetLines T ∩ targetLines T' :=
  Finset.image_inter T T' fun _ _ h => (List.cons.inj h).1

namespace Plan

variable {ps : List Plan} {tables : List Table} {p : Plan} {table : Table} {ownPath : Bool}

theorem Shows.layouts_eq (h : List.Forall₂ Shows ps tables) :
    ps.map Plan.layout = tables.map Table.layout := by
  induction h with
  | nil => rfl
  | cons hp _ ih => rw [List.map_cons, List.map_cons, hp.layout, ih]

/-- Plans are combined in the layout in which their tables are. -/
theorem Shows.commonLayout_eq (h : List.Forall₂ Shows ps tables) (hne : ps ≠ []) (ownPath : Bool) :
    Member.commonLayout ps ownPath = Table.commonLayout tables ownPath := by
  refine Layout.eq_of_iff ?_
  have hall : (∀ p ∈ ps, p.layout = .tripleBased) ↔ ∀ t ∈ tables, t.layout = .tripleBased := by
    rw [← List.forall_mem_map (f := Plan.layout) (P := fun l => l = .tripleBased),
      Shows.layouts_eq h, List.forall_mem_map]
  rw [Member.commonLayout_eq_tripleBased_iff, Table.commonLayout_eq_tripleBased_iff, hall]
  exact and_iff_right hne

/-! ## Unions -/

theorem Shows.ascends_unionInputs (h : List.Forall₂ Shows ps tables) (hne : ps ≠ [])
    (ownPath : Bool) :
    List.Forall₂ Ascends (Member.unionInputs ps ownPath)
      (tables.map (Table.linesAs (Table.commonLayout tables ownPath))) := by
  unfold Member.unionInputs
  rw [Shows.commonLayout_eq h hne]
  cases Table.commonLayout tables ownPath with
  | tripleBased =>
    refine List.forall₂_map_right_iff.2 (h.imp fun p t hp => ?_)
    exact hp.delivers.ascends
  | aggregated =>
    refine List.forall₂_map_left_iff.2 (List.forall₂_map_right_iff.2 (h.imp fun p t hp => ?_))
    exact hp.delivers.ascends.trimTo_one

/-- The union of the plans of several members shows the union of their tables. -/
theorem shows_union (h : List.Forall₂ Shows ps tables) (hne : ps ≠ []) (ownPath : Bool) :
    (Plan.unique (.union (Member.unionInputs ps ownPath)) none).Shows
      (Table.unionAs (Table.commonLayout tables ownPath) tables) := by
  refine ⟨?_, ?_⟩
  · show (Plan.union _).layout = Table.commonLayout tables ownPath
    rw [← Shows.commonLayout_eq h hne]
    exact layout_union (Member.unionInputs_ne_nil hne) fun _ => Member.layout_of_mem_unionInputs
  · have hunion := (ascends_union (Shows.ascends_unionInputs h hne ownPath)).unique
    rw [List.foldr_map] at hunion
    exact hunion

/-! ## Intersections -/

theorem filter_forall_mem_cons (layout : Layout) (L : Finset (List Term)) :
    (L.filter fun l => ∀ t ∈ table :: tables, l ∈ t.linesAs layout) =
      (L ∩ table.linesAs layout).filter fun l => ∀ t ∈ tables, l ∈ t.linesAs layout := by
  ext l
  simp only [Finset.mem_filter, Finset.mem_inter, List.forall_mem_cons, and_assoc]

theorem delivers_foldl_equalsJoin (h : List.Forall₂ Shows ps tables) :
    ∀ {p : Plan} {L : Finset (List Term)}, p.Delivers L →
      (ps.foldl (fun acc p => .equalsJoin acc p true) p).Delivers
        (L.filter fun l => ∀ t ∈ tables, l ∈ t.linesAs .tripleBased) := by
  induction h with
  | nil =>
    intro p L hp
    rw [Finset.filter_true_of_mem fun _ _ _ ht => absurd ht List.not_mem_nil]
    exact hp
  | cons hq _ ih =>
    intro p L hp
    rw [List.foldl_cons, filter_forall_mem_cons]
    exact ih (hp.equalsJoin hq.delivers)

theorem layout_foldl_equalsJoin (ps : List Plan) : ∀ p : Plan,
    (ps.foldl (fun acc p => Plan.equalsJoin acc p true) p).layout = p.layout := by
  induction ps with
  | nil => exact fun _ => rfl
  | cons q ps ih => exact fun p => ih (.equalsJoin p q true)

theorem delivers_foldl_innerJoin (h : List.Forall₂ Shows ps tables) :
    ∀ {p : Plan} {T : Finset Term}, p.Delivers (targetLines T) →
      (ps.foldl (fun acc p => .innerJoin acc p.distinctTargets) p).Delivers
        ((targetLines T).filter fun l => ∀ t ∈ tables, l ∈ t.linesAs .aggregated) := by
  induction h with
  | nil =>
    intro p T hp
    rw [Finset.filter_true_of_mem fun _ _ _ ht => absurd ht List.not_mem_nil]
    exact hp
  | @cons q table _ _ hq _ ih =>
    intro p T hp
    have hcut : table.linesAs .aggregated = targetLines table.targets :=
      hq.delivers.image_take_one
    rw [List.foldl_cons, filter_forall_mem_cons, hcut, ← targetLines_inter]
    exact ih (hp.innerJoin hq.delivers.distinctTargets)

/-- The intersection of the plans of several branches delivers the intersection of their lines. -/
theorem delivers_intersection (h : p.Shows table) (hs : List.Forall₂ Shows ps tables)
    (layout : Layout) :
    (Member.intersection layout p ps).Delivers
      (Table.intersectionAs layout table tables).lines := by
  cases layout with
  | tripleBased =>
    cases hs with
    | nil =>
      have hunion := (ascends_union (.cons h.delivers.ascends .nil)).unique
      rw [List.foldr_cons, List.foldr_nil, Finset.union_empty] at hunion
      show (Plan.unique (.union [p]) none).Delivers (table.lines.filter _)
      rw [Finset.filter_true_of_mem fun _ _ _ ht => absurd ht List.not_mem_nil]
      exact hunion
    | cons hq hqs => exact delivers_foldl_equalsJoin (.cons hq hqs) h.delivers
  | aggregated =>
    -- where only targets are compared, the first input is cut to its targets as well
    have hcut : table.linesAs .aggregated = targetLines table.targets := h.delivers.image_take_one
    rw [Table.intersectionAs, hcut]
    cases hs with
    | nil =>
      have hunion := (ascends_union (.cons h.delivers.ascends .nil)).distinctTargets
      rw [List.foldr_cons, List.foldr_nil, Finset.union_empty, h.delivers.image_take_one] at hunion
      show (Plan.union [p]).distinctTargets.Delivers ((targetLines table.targets).filter _)
      rw [Finset.filter_true_of_mem fun _ _ _ ht => absurd ht List.not_mem_nil]
      exact hunion
    | cons hq hqs => exact delivers_foldl_innerJoin (.cons hq hqs) h.delivers.distinctTargets

/-- Where whole lines are intersected, the plan keeps the layout of the first branch. -/
theorem layout_intersection (p : Plan) (ps : List Plan) :
    (Member.intersection .tripleBased p ps).layout = p.layout := by
  cases ps with
  | nil => rfl
  | cons q ps => exact layout_foldl_equalsJoin (q :: ps) p

theorem Delivers.relabel {L : Finset (List Term)} (h : p.Delivers L) (layout : Layout) :
    (Plan.relabel p layout).Delivers L := by
  unfold Delivers Lists delivery
  rw [meaning_relabel]
  exact h

end Plan

end GraphShapes
