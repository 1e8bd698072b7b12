import GraphShapes.Proofs.Planner.Items
import GraphShapes.Proofs.Planner.Kept

/-!
# Plans are honest about their rows

A plan is honest (`Plan.Honest`) if its rows come in strictly ascending order, if under the layout
with all columns each of them is a target, a value that some constraint rejects and the statement
that leads there, and if under the other layout none of them has a third column. Every plan of a
shape is honest (`Shape.ensures_honest`), with the shape's own leaves as the constraints.

This is about whatever a plan delivers before it ends or breaks off. So nothing is asked of a delta
or of the targets that are handed down: the planner sorts those before it relies on their order.
-/

namespace GraphShapes

/-- The line tells a target, a value that one of the constraints rejects on its path, and the
statement of the graph that leads there. -/
def Store.Rejection (G : Store) (leaf : Option Path → Constraint → Prop) (l : List Term) : Prop :=
  ∃ (t : Term) (p : Path) (c : Constraint) (st : Statement), leaf (some p) c ∧
    c.isValueLevel = true ∧ c.accepts (p.valueOf st) = false ∧ st ∈ G.toList ∧
    p.links t st = true ∧ l = [t, p.valueOf st, st.quoted]

namespace Row

variable {rows rows' : List Row}

/-- Rows are in strictly ascending order if their lines are. -/
theorem strict_iff_lines :
    Strict rows ↔ (rows.map line).Pairwise fun a b => compareLines a b = .lt := by
  rw [List.pairwise_map]
  exact Iff.rfl

/-- Rows whose lines are some lines of such rows, in their order, are too. -/
theorem Strict.of_sublist_lines (h : Strict rows')
    (hs : (rows.map line).Sublist (rows'.map line)) : Strict rows :=
  strict_iff_lines.2 ((strict_iff_lines.1 h).sublist hs)

/-- Each of them has the line of one of those. -/
theorem exists_line_of_sublist (hs : (rows.map line).Sublist (rows'.map line)) {r : Row}
    (hr : r ∈ rows) : ∃ r' ∈ rows', r'.line = r.line :=
  List.mem_map.1 (hs.mem (List.mem_map_of_mem hr))

/-- The rows consist of a target each. -/
def Bare (rows : List Row) : Prop := ∀ r ∈ rows, r.line = [r.target]

/-- Rows that are cut to the target have no other column. -/
theorem bare_trim (rows : List Row) : Bare (rows.map (trim 1)) := by
  intro r hr
  obtain ⟨r', -, rfl⟩ := List.mem_map.1 hr
  rfl

/-- The lines of rows without another column are their targets. -/
theorem map_line_of_bare (h : Bare rows) : rows.map line = rows.map fun r => [r.target] :=
  List.map_congr_left h

end Row

namespace Plan

variable {G : Store} {leaf : Option Path → Constraint → Prop} {p q : Plan}

/-- The rows come in strictly ascending order and are what the layout declares. -/
structure Honest (G : Store) (leaf : Option Path → Constraint → Prop) (p : Plan) : Prop where
  strict : Row.Strict p.items
  rejections : p.layout = .tripleBased → ∀ r ∈ p.items, G.Rejection leaf r.line
  short : p.layout = .aggregated → ∀ r ∈ p.items, r.line.length ≤ 2

/-- The rows are targets in strictly ascending order. -/
structure Targets (p : Plan) : Prop where
  strict : Row.Strict p.items
  bare : Row.Bare p.items

/-- A plan of distinct targets is honest if it declares nothing more. -/
theorem Targets.honest (h : p.Targets) (hl : p.layout = .aggregated) : p.Honest G leaf where
  strict := h.strict
  rejections ht := by rw [hl] at ht; cases ht
  short _ r hr := by rw [h.bare r hr]; exact Nat.le_succ 1

/-- Sorted rows of targets, without repetitions, are distinct targets. -/
theorem targets_unique (h : Row.Sorted p.items) (hb : Row.Bare p.items) :
    (unique p none).Targets where
  strict := strict_unique h
  bare r hr := hb r (mem_unique hr)

/-- The distinct targets of sorted rows. -/
theorem targets_distinctTargets (h : Row.Sorted p.items) : p.distinctTargets.Targets := by
  refine targets_unique ?_ ?_ <;> rw [trimTo, items_trim]
  · exact Row.sorted_trim h 1
  · exact Row.bare_trim _

/-- Whatever is handed down is sorted and made distinct. -/
theorem targets_focus (q : Plan) : (unique (.sort (.trimTo q 1)) none).Targets := by
  rcases items_sort (.trimTo q 1) with hnil | hsort
  · refine targets_unique ?_ fun r hr => ?_
    · rw [hnil]
      exact .nil
    · rw [hnil] at hr
      exact absurd hr List.not_mem_nil
  · refine targets_unique ?_ fun r hr => ?_
    · rw [hsort]
      exact Row.sorted_sort _
    · rw [hsort, trimTo, items_trim, (Ordered.perm_sort _).mem_iff] at hr
      exact Row.bare_trim _ r hr

/-- A scan delivers distinct targets. -/
theorem targets_scan {ctx : Context} (h : ctx.source.Reliable) (frame : Frame) :
    (ctx.scan frame).Targets := by
  obtain ⟨terms, hasc, hitems⟩ := TargetScan.items_eq
    ⟨ctx.source, frame.targets, ctx.targetMode frame.path⟩ h
  refine ⟨?_, fun r hr => ?_⟩
  · rw [Context.scan, hitems]
    refine List.Pairwise.map _ (fun a b hab => ?_) hasc
    exact (Row.compareLines_singleton a b).trans hab
  · rw [Context.scan, hitems] at hr
    obtain ⟨t, -, rfl⟩ := List.mem_map.1 hr
    rfl

/-- Distinct targets come in ascending order. -/
theorem Targets.pairwise (h : p.Targets) :
    p.items.Pairwise fun a b => a.target.compare b.target = .lt :=
  pairwise_target h.bare h.strict

/-! ## Combinations -/

namespace Honest

/-- A tag changes no columns. -/
theorem tag (h : p.Honest G leaf) (id : ShapeId) : (Plan.tag p id).Honest G leaf := by
  refine ⟨?_, fun hl r hr => ?_, fun hl r hr => ?_⟩
  · rw [items_tag]
    exact Row.strict_map (Row.line_tag id) h.strict
  · rw [items_tag] at hr
    obtain ⟨r', hr', rfl⟩ := List.mem_map.1 hr
    exact h.rejections hl r' hr'
  · rw [items_tag] at hr
    obtain ⟨r', hr', rfl⟩ := List.mem_map.1 hr
    exact h.short hl r' hr'

/-- A plan of targets may be declared as one. -/
theorem relabel (h : p.Honest G leaf) (hl : p.layout = .aggregated) :
    (Plan.relabel p .aggregated).Honest G leaf := by
  refine ⟨?_, fun hl => (nomatch hl), fun _ r hr => ?_⟩
  · rw [items_relabel]
    exact h.strict
  · rw [items_relabel] at hr
    exact h.short hl r hr

/-- What only delivers lines of an honest plan of the same layout is honest. -/
theorem of_sublist_lines (h : p.Honest G leaf) (hl : q.layout = p.layout)
    (hs : (q.items.map Row.line).Sublist (p.items.map Row.line)) : q.Honest G leaf := by
  refine ⟨h.strict.of_sublist_lines hs, fun ht r hr => ?_, fun ht r hr => ?_⟩
  · obtain ⟨r', hr', hline⟩ := Row.exists_line_of_sublist hs hr
    exact hline ▸ h.rejections (hl.symm.trans ht) r' hr'
  · obtain ⟨r', hr', hline⟩ := Row.exists_line_of_sublist hs hr
    exact hline ▸ h.short (hl.symm.trans ht) r' hr'

/-- Inputs of one layout may be united. -/
theorem unique_union {ps : List Plan} {layout : Layout} (hne : ps ≠ [])
    (hl : ∀ p ∈ ps, p.layout = layout) (hsorted : ∀ p ∈ ps, Row.Sorted p.items)
    (hrejections : layout = .tripleBased → ∀ p ∈ ps, ∀ r ∈ p.items, G.Rejection leaf r.line)
    (hshort : layout = .aggregated → ∀ p ∈ ps, ∀ r ∈ p.items, r.line.length ≤ 2) :
    (Plan.unique (.union ps) none).Honest G leaf := by
  have hlayout : (Plan.unique (.union ps) none).layout = layout := layout_union hne hl
  refine ⟨strict_unique (sorted_union hsorted), fun ht r hr => ?_, fun ht r hr => ?_⟩
  · obtain ⟨p, hp, hr⟩ := mem_union (mem_unique hr)
    exact hrejections (hlayout.symm.trans ht) p hp r hr
  · obtain ⟨p, hp, hr⟩ := mem_union (mem_unique hr)
    exact hshort (hlayout.symm.trans ht) p hp r hr

/-- A union of honest plans is honest in their common layout. -/
theorem unite {plans : List Plan} (hne : plans ≠ []) (ownPath : Bool)
    (h : ∀ p ∈ plans, p.Honest G leaf) :
    (Plan.unique (.union (Member.unionInputs plans ownPath)) none).Honest G leaf := by
  have hlayout : ∀ p ∈ Member.unionInputs plans ownPath,
      p.layout = Member.commonLayout plans ownPath := fun _ => Member.layout_of_mem_unionInputs
  unfold Member.unionInputs at hlayout ⊢
  cases hc : Member.commonLayout plans ownPath with
  | tripleBased =>
    rw [hc] at hlayout
    exact unique_union hne hlayout (fun p hp => (h p hp).strict.sorted)
      (fun _ p hp => (h p hp).rejections (hlayout p hp)) fun hl => nomatch hl
  | aggregated =>
    rw [hc] at hlayout
    -- where only targets are compared, all inputs are cut to their targets
    have hcut : ∀ p ∈ plans.map fun p => p.trimTo 1, ∃ q ∈ plans,
        p.items = q.items.map (Row.trim 1) := by
      intro p hp
      obtain ⟨q, hq, rfl⟩ := List.mem_map.1 hp
      exact ⟨q, hq, items_trim q _⟩
    refine unique_union (fun hnil => hne (List.map_eq_nil_iff.1 hnil)) hlayout (fun p hp => ?_)
      (fun hl => nomatch hl) fun _ p hp r hr => ?_
    · obtain ⟨q, hq, hitems⟩ := hcut p hp
      rw [hitems]
      exact Row.sorted_trim (h q hq).strict.sorted 1
    · obtain ⟨q, -, hitems⟩ := hcut p hp
      rw [hitems] at hr
      rw [Row.bare_trim _ r hr]
      exact Nat.le_succ 1

/-- A chain of equality joins is honest, since it delivers lines of the first plan. -/
theorem foldl_equalsJoin : ∀ {ps : List Plan} {p : Plan}, p.Honest G leaf →
    (∀ q ∈ ps, q.Honest G leaf) →
      (ps.foldl (fun acc p => .equalsJoin acc p true) p).Honest G leaf
  | [], _, hp, _ => hp
  | q :: _, p, hp, h => by
    obtain ⟨hq, hps⟩ := List.forall_mem_cons.1 h
    have hjoin : (Plan.equalsJoin p q true).Honest G leaf :=
      hp.of_sublist_lines rfl (sublist_lines_equalsJoin hp.strict hq.strict)
    rw [List.foldl_cons]
    exact foldl_equalsJoin hjoin hps

end Honest

/-- An inner join with distinct targets delivers distinct targets. -/
theorem targets_innerJoin (h : p.Targets) (q : Plan) : (innerJoin p q).Targets := by
  have hs := sublist_lines_innerJoin p q
  rw [← Row.map_line_of_bare h.bare] at hs
  refine ⟨h.strict.of_sublist_lines hs, fun r hr => ?_⟩
  obtain ⟨r', hr', hline⟩ := Row.exists_line_of_sublist hs hr
  rw [h.bare r' hr'] at hline
  obtain ⟨ht, hnil⟩ := List.cons.inj hline
  rw [Row.line, ← hnil, ← ht]

/-- So does a chain of them. -/
theorem targets_foldl_innerJoin : ∀ {ps : List Plan} {p : Plan}, p.Targets →
    (ps.foldl (fun acc p => Plan.innerJoin acc p.distinctTargets) p).Targets
  | [], _, hp => hp
  | q :: _, p, hp => by
    have hjoin : (innerJoin p q.distinctTargets).Targets := targets_innerJoin hp _
    rw [List.foldl_cons]
    exact targets_foldl_innerJoin hjoin

/-- An intersection of honest plans is honest in their common layout. -/
theorem Honest.intersection {first : Plan} {rest : List Plan} (ownPath : Bool)
    (h : ∀ p ∈ first :: rest, p.Honest G leaf) :
    (Member.intersection (Member.commonLayout (first :: rest) ownPath) first rest).Honest G
      leaf := by
  obtain ⟨hfirst, hrest⟩ := List.forall_mem_cons.1 h
  cases hc : Member.commonLayout (first :: rest) ownPath with
  | tripleBased =>
    cases rest with
    | nil =>
      -- of a single branch with all columns, the rows are the intersection
      have hl := (Member.commonLayout_eq_tripleBased_iff.1 hc).2.2
      exact unique_union (List.cons_ne_nil first []) hl
        (List.forall_mem_singleton.2 hfirst.strict.sorted)
        (fun _ => List.forall_mem_singleton.2
          (hfirst.rejections (hl first (List.mem_cons_self ..)))) fun hl => nomatch hl
    | cons p rest => exact foldl_equalsJoin hfirst hrest
  | aggregated =>
    refine Targets.honest ?_ (Member.layout_intersection_aggregated first rest)
    cases rest with
    | nil =>
      exact targets_distinctTargets
        (sorted_union (List.forall_mem_singleton.2 hfirst.strict.sorted))
    | cons p rest =>
      exact targets_foldl_innerJoin (targets_distinctTargets hfirst.strict.sorted)

end Plan

/-! ## Constraints -/

namespace Unshared

variable {ctx : Context} {targets : List Target} {path : Option Path}
  {leaf : Option Path → Constraint → Prop} {c : Constraint} {focus : Plan}

/-- The rows of rejected values are rejections. -/
theorem rejection_of_mem_items {p : Path} (hs : ctx.source.Reliable) (hleaf : leaf (some p) c)
    (hv : c.isValueLevel = true) {r : Row}
    (hr : r ∈ (Plan.filter (.valuesOf focus ctx.source (some p)) c.display c.rejects).items) :
    ctx.source.store.Rejection leaf r.line := by
  rw [Plan.items_filter, Plan.items_valuesOf hs] at hr
  obtain ⟨hmem, hrejects⟩ := List.mem_filter.1 hr
  obtain ⟨row, -, hmem⟩ := List.mem_flatMap.1 hmem
  obtain ⟨st, hst, rfl⟩ := List.mem_map.1 hmem
  obtain ⟨hst, hlinks⟩ := List.mem_filter.1 hst
  have hrejects : (!c.accepts (p.valueOf st)) = true := hrejects
  exact ⟨row.target, p, c, st, hleaf, hv, by simpa using hrejects, hst, hlinks, rfl⟩

/-- The violations of a constraint are honest: each row has a value that it rejects. -/
theorem honest_violationsOf (hs : ctx.source.Reliable) (hleaf : leaf path c)
    (hfocus : focus.Targets) :
    (violationsOf ctx ⟨targets, path⟩ c focus).Honest ctx.source.store leaf := by
  unfold violationsOf
  cases hv : c.isValueLevel with
  | true =>
    refine ⟨?_, fun hl r hr => ?_, fun hl r hr => ?_⟩
    · show Row.Strict (Plan.filter _ _ _).items
      rw [Plan.items_filter, Plan.items_valuesOf hs]
      exact List.Pairwise.filter _ (strict_flatMap_valueRows _ _ hfocus.pairwise)
    · cases path with
      | none => cases hl
      | some p => exact rejection_of_mem_items hs hleaf hv hr
    · cases path with
      | some p => cases hl
      | none =>
        have hr : r ∈ (Plan.filter (.valuesOf focus ctx.source none) c.display c.rejects).items :=
          hr
        rw [Plan.items_filter, Plan.items_valuesOf hs] at hr
        obtain ⟨row, -, hmem⟩ := List.mem_flatMap.1 (List.mem_filter.1 hr).1
        obtain rfl := List.mem_singleton.1 hmem
        exact Nat.le_refl 2
  | false =>
    -- what is judged as a whole is reported by target alone, in the order of the targets
    have hsub := Plan.sublist_countValues focus (.valuesOf focus ctx.source path) c.display
      fun values => c.violatedBy values
    refine Plan.Targets.honest (p := Plan.countValues _ _ _ _) ⟨?_, fun r hr => ?_⟩ rfl
    · refine List.Pairwise.sublist hsub (List.Pairwise.map _ (fun a b hab => ?_) hfocus.pairwise)
      exact (Row.compareLines_singleton a.target b.target).trans hab
    · exact Row.bare_trim _ r (hsub.mem hr)

/-- So are the targets without a violation, which declare only targets. -/
theorem honest_satisfactionsOf (hfocus : focus.Targets) (hl : focus.layout = .aggregated) :
    (satisfactionsOf ctx ⟨targets, path⟩ c focus).Honest ctx.source.store leaf := by
  have hsub := Plan.sublist_antiJoin focus (violationsOf ctx ⟨targets, path⟩ c
    (.unique (.sort (.trimTo focus 1)) none)).distinctTargets
  exact (hfocus.honest hl).of_sublist_lines rfl (hsub.map _)

/-- The targets of a constraint are scanned, or sorted after they were handed down. -/
theorem targets_of_focus (hs : ctx.source.Reliable) (given : Option Offer) :
    Ensures (Unshared.focus ctx ⟨targets, path⟩ given) fun p =>
      p.Targets ∧ p.layout = .aggregated := by
  cases given with
  | none => exact .pure ⟨Plan.targets_scan hs _, rfl⟩
  | some offer =>
    cases offer with
    | error e => exact .error _
    | ok q => exact .pure ⟨Plan.targets_focus q, rfl⟩

/-- So is the plan of a constraint, negated or not. -/
theorem honest_plan (hs : ctx.source.Reliable) (hleaf : leaf path c) (id : ShapeId)
    (given : Option Offer) (negate : Bool) :
    Ensures (plan ctx ⟨targets, path⟩ id c given negate)
      (Plan.Honest ctx.source.store leaf) := by
  refine (targets_of_focus hs given).bind fun p hp => .pure (Plan.Honest.tag ?_ id)
  cases negate with
  | true => exact honest_satisfactionsOf hp.1 hp.2
  | false => exact honest_violationsOf hs hleaf hp.1

/-- The plans of constraints are honest, and the planner's combinations of honest plans are. -/
theorem kept_honest (hs : ctx.source.Reliable) (targets : List Target)
    (leaf : Option Path → Constraint → Prop) :
    Plan.Kept ctx targets leaf (fun _ => True) (Plan.Honest ctx.source.store leaf) where
  plan id negate hleaf _ := honest_plan hs hleaf id _ negate
  tag id h := h.tag id
  relabel hl h := h.relabel hl
  unite ownPath hne h := .unite hne ownPath h
  intersection ownPath h := .intersection ownPath h
  candidates _ := trivial

end Unshared

end GraphShapes
