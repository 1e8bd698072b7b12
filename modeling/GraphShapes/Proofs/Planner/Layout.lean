import GraphShapes.Planner.Combine

/-!
# Layouts never clash

The operators that combine plans refuse inputs of different layouts. The planner always brings its
inputs to a common layout first, so none of the operators it builds is refused: a union of inputs
of one layout (`union?_eq_ok`), the joins of the branches of a disjunction (`intersect_eq_ok`).

All three columns survive exactly where every plan that is combined has them and no member sets a
path of its own (`commonLayout_eq_tripleBased_iff`).
-/

namespace GraphShapes

namespace Layout

theorem foldl_meet_eq_tripleBased_iff :
    ∀ {ls : List Layout} {a : Layout},
      ls.foldl meet a = .tripleBased ↔ a = .tripleBased ∧ ∀ l ∈ ls, l = .tripleBased
  | [], a => by simp
  | l :: ls, a => by
    rw [List.foldl_cons, foldl_meet_eq_tripleBased_iff, List.forall_mem_cons]
    cases a <;> cases l <;> simp [meet]

theorem reconcile_eq_tripleBased_iff {ls : List Layout} :
    reconcile ls = some .tripleBased ↔ ls ≠ [] ∧ ∀ l ∈ ls, l = .tripleBased := by
  cases ls with
  | nil => simp [reconcile]
  | cons l ls =>
    rw [reconcile, Option.some.injEq, foldl_meet_eq_tripleBased_iff, List.forall_mem_cons]
    simp

end Layout

namespace Plan

theorem layout_distinctTargets (p : Plan) : p.distinctTargets.layout = .aggregated := rfl

/-- A union of plans of one layout is not refused. -/
theorem union?_eq_ok {ps : List Plan} {l : Layout} (hne : ps ≠ []) (h : ∀ p ∈ ps, p.layout = l) :
    union? ps = .ok (.union ps) := by
  cases ps with
  | nil => exact absurd rfl hne
  | cons first rest =>
    obtain ⟨hfirst, hrest⟩ := List.forall_mem_cons.1 h
    have hfind : (rest.find? fun p => p.layout ≠ first.layout) = none := by
      rw [List.find?_eq_none]
      intro p hp
      simp [hrest p hp, hfirst]
    rw [union?, hfind]

theorem layout_union {ps : List Plan} {l : Layout} (hne : ps ≠ []) (h : ∀ p ∈ ps, p.layout = l) :
    (Plan.union ps).layout = l := by
  cases ps with
  | nil => exact absurd rfl hne
  | cons first rest => exact h first (List.mem_cons_self ..)

end Plan

namespace Member

theorem commonLayout_eq_tripleBased_iff {plans : List Plan} {ownPath : Bool} :
    commonLayout plans ownPath = .tripleBased ↔
      plans ≠ [] ∧ ownPath = false ∧ ∀ p ∈ plans, p.layout = .tripleBased := by
  have hr : Layout.reconcile (plans.map Plan.layout) = some .tripleBased ↔ _ :=
    Layout.reconcile_eq_tripleBased_iff
  rw [ne_eq, List.map_eq_nil_iff, List.forall_mem_map] at hr
  unfold commonLayout
  split
  · next h =>
    obtain ⟨hne, hall⟩ := hr.1 h
    cases ownPath with
    | false => exact ⟨fun _ => ⟨hne, rfl, hall⟩, fun _ => rfl⟩
    | true => exact ⟨fun hc => (nomatch hc), fun hc => (nomatch hc.2.1)⟩
  · next h =>
    constructor
    · exact fun hc => (nomatch hc)
    · intro hex
      obtain ⟨hne, -, hall⟩ := hex
      exact absurd (hr.2 ⟨hne, hall⟩) h

/-- The plans as they are united: cut to the target unless all columns survive. -/
def unionInputs (plans : List Plan) (ownPath : Bool) : List Plan :=
  match commonLayout plans ownPath with
  | .tripleBased => plans
  | .aggregated => plans.map fun p => p.trimTo 1

theorem layout_of_mem_unionInputs {plans : List Plan} {ownPath : Bool} {p : Plan}
    (h : p ∈ unionInputs plans ownPath) : p.layout = commonLayout plans ownPath := by
  unfold unionInputs at h
  cases hc : commonLayout plans ownPath with
  | tripleBased =>
    rw [hc] at h
    exact (commonLayout_eq_tripleBased_iff.1 hc).2.2 p h
  | aggregated =>
    rw [hc] at h
    obtain ⟨q, -, rfl⟩ := List.mem_map.1 h
    rfl

theorem unionInputs_ne_nil {plans : List Plan} {ownPath : Bool} (h : plans ≠ []) :
    unionInputs plans ownPath ≠ [] := by
  unfold unionInputs
  split
  · exact h
  · exact fun hm => h (List.map_eq_nil_iff.1 hm)

/-- The union of the plans of several members. -/
theorem union?_unionInputs {plans : List Plan} {ownPath : Bool} (h : plans ≠ []) :
    Plan.union? (unionInputs plans ownPath) = .ok (.union (unionInputs plans ownPath)) :=
  Plan.union?_eq_ok (unionInputs_ne_nil h) fun _ => layout_of_mem_unionInputs

/-! ## Intersections -/

/-- The intersection of plans, as the planner builds it once their layouts agree. -/
def intersection (layout : Layout) (first : Plan) : List Plan → Plan
  | [] =>
    match layout with
    | .tripleBased => .unique (.union [first]) none
    | .aggregated => (Plan.union [first]).distinctTargets
  | rest =>
    match layout with
    | .tripleBased => rest.foldl (fun acc p => .equalsJoin acc p true) first
    | .aggregated => rest.foldl (fun acc p => .innerJoin acc p.distinctTargets)
        first.distinctTargets

theorem layout_foldl_innerJoin (ps : List Plan) : ∀ {p : Plan}, p.layout = .aggregated →
    (ps.foldl (fun acc p => Plan.innerJoin acc p.distinctTargets) p).layout = .aggregated := by
  induction ps with
  | nil => exact id
  | cons q ps ih => exact fun _ => ih rfl

/-- Where only targets are intersected, the result is declared to be so. -/
theorem layout_intersection_aggregated (first : Plan) (rest : List Plan) :
    (intersection .aggregated first rest).layout = .aggregated := by
  cases rest with
  | nil => rfl
  | cons p rest => exact layout_foldl_innerJoin (p :: rest) (Plan.layout_distinctTargets first)

theorem joinEqual_eq_ok :
    ∀ {rest : List Plan} {acc : Plan}, acc.layout = .tripleBased →
      (∀ p ∈ rest, p.layout = .tripleBased) →
      joinEqual acc rest = .ok (rest.foldl (fun acc p => .equalsJoin acc p true) acc)
  | [], _, _, _ => rfl
  | p :: rest, acc, hacc, h => by
    obtain ⟨hp, hrest⟩ := List.forall_mem_cons.1 h
    rw [joinEqual, Plan.equalsJoin?, if_pos (by rw [hacc, hp])]
    exact joinEqual_eq_ok hacc hrest

theorem joinTargets_eq_ok :
    ∀ {rest : List Plan} {acc : Plan}, acc.layout = .aggregated →
      joinTargets acc rest = .ok (rest.foldl (fun acc p => .innerJoin acc p.distinctTargets) acc)
  | [], _, _ => rfl
  | p :: rest, acc, hacc => by
    have hfind : ([acc, p.distinctTargets].find? fun p => p.layout ≠ .aggregated) = none := by
      simp [hacc, Plan.layout_distinctTargets]
    rw [joinTargets, Plan.innerJoin?, hfind]
    exact joinTargets_eq_ok rfl

/-- The intersection of plans in their common layout is not refused. -/
theorem intersect_eq_ok {first : Plan} {rest : List Plan} {ownPath : Bool} :
    intersect (commonLayout (first :: rest) ownPath) first rest =
      .ok (intersection (commonLayout (first :: rest) ownPath) first rest) := by
  cases hc : commonLayout (first :: rest) ownPath with
  | tripleBased =>
    have h := (commonLayout_eq_tripleBased_iff.1 hc).2.2
    cases rest with
    | nil => rfl
    | cons p rest =>
      exact joinEqual_eq_ok (h first (List.mem_cons_self ..))
        fun q hq => h q (List.mem_cons_of_mem _ hq)
  | aggregated =>
    cases rest with
    | nil => rfl
    | cons p rest => exact joinTargets_eq_ok rfl

end Member

end GraphShapes
