import GraphShapes.Proofs.Planner.Items
import GraphShapes.Proofs.Planner.Kept

/-!
# What rows inherit

Operators make rows of the rows of their inputs. They cut and change the columns after the target,
start a row afresh for every value of a target, and merge what the rows that they join carry along.
A property of rows that survives the first two steps persists (`Row.Persists`), and one that
survives all three is inherited (`Row.Inherited`). Then every operator hands it on: if all rows of
the inputs have it, so have all rows that are delivered (`Plan.Has`).

Only tags are not covered, which add to the trace of a row what may matter to the property.
-/

namespace GraphShapes

/-- The property survives what operators make of single rows. -/
structure Row.Persists (P : Row → Prop) : Prop where
  /-- The columns after the target do not matter. -/
  columns : ∀ {r : Row} (others : List Term), P r → P { r with others := others }
  /-- A row may start afresh, with its scope and without its trace. -/
  afresh : ∀ {r : Row}, P r → P { r with trace := [] }

/-- And what they make of rows that they join. -/
structure Row.Inherited (P : Row → Prop) : Prop extends Row.Persists P where
  absorb : ∀ {a b : Row}, P a → P b → P (a.absorb b)

namespace Plan

variable {P : Row → Prop} {p q : Plan}

/-- All rows have the property. -/
def Has (P : Row → Prop) (p : Plan) : Prop := ∀ r ∈ p.items, P r

/-- A property of all rows may be weakened. -/
theorem Has.mono {Q : Row → Prop} (h : p.Has P) (hPQ : ∀ r, P r → Q r) : p.Has Q :=
  fun r hr => hPQ r (h r hr)

/-- An operator that changes every row in the same way. -/
theorem has_of_items_map {Q : Row → Prop} {f : Row → Row} (hf : ∀ {r}, P r → Q (f r))
    (hq : q.items = p.items.map f) (h : p.Has P) : q.Has Q := by
  intro r hr
  rw [hq] at hr
  obtain ⟨r', hr', rfl⟩ := List.mem_map.1 hr
  exact hf (h r' hr')

/-- An operator that delivers no other rows than its input. -/
theorem has_of_subset (hq : ∀ r ∈ q.items, r ∈ p.items) (h : p.Has P) : q.Has P :=
  fun r hr => h r (hq r hr)

/-- A tag may turn one property into another. -/
theorem Has.tag {Q : Row → Prop} (h : p.Has P) {id : ShapeId} (hid : ∀ {r}, P r → Q (r.tag id)) :
    (Plan.tag p id).Has Q :=
  has_of_items_map hid (items_tag p id) h

/-! ## Operators that only leave rows out -/

theorem Has.unique (h : p.Has P) (width : Option Nat) : (Plan.unique p width).Has P :=
  has_of_subset (fun _ => mem_unique) h

theorem Has.relabel (h : p.Has P) (layout : Layout) : (Plan.relabel p layout).Has P :=
  has_of_subset (fun _ hr => by rwa [items_relabel] at hr) h

theorem Has.sort (h : p.Has P) : (Plan.sort p).Has P := by
  refine has_of_subset (fun r hr => ?_) h
  rcases items_sort p with hnil | hsort
  · rw [hnil] at hr
    exact absurd hr List.not_mem_nil
  · rw [hsort] at hr
    exact (Ordered.perm_sort _).mem_iff.1 hr

theorem Has.filter (h : p.Has P) (label : String) (keep : Row → Bool) :
    (Plan.filter p label keep).Has P :=
  has_of_subset (fun _ hr => List.mem_of_mem_filter (items_filter p label keep ▸ hr)) h

/-- An anti join delivers rows of its left input. -/
theorem Has.antiJoin (h : p.Has P) (q : Plan) : (Plan.antiJoin p q).Has P :=
  has_of_subset (fun _ => (sublist_antiJoin p q).mem) h

/-- A union delivers the rows of its inputs. -/
theorem Has.union {ps : List Plan} (h : ∀ p ∈ ps, p.Has P) : (Plan.union ps).Has P := by
  intro r hr
  obtain ⟨p, hp, hr⟩ := mem_union hr
  exact h p hp r hr

end Plan

namespace Row.Persists

open Plan (Has)

variable {P : Row → Prop} (hP : Row.Persists P) {p q : Plan}
include hP

/-! ## Operators that make new rows -/

/-- Cutting columns off keeps what persists. -/
theorem trim (h : p.Has P) (n : Nat) : (Plan.trim p n).Has P :=
  Plan.has_of_items_map (fun hr => hP.columns _ hr) (Plan.items_trim p n) h

/-- So does keeping one row for each target. -/
theorem distinctTargets (h : p.Has P) : p.distinctTargets.Has P := (hP.trim h 1).unique none

/-- A row that is started afresh for a value has what persists. -/
theorem valuesOf {source : Source} (hs : source.Reliable) (h : p.Has P) (path : Option Path) :
    (Plan.valuesOf p source path).Has P := by
  intro r hr
  rw [Plan.items_valuesOf hs] at hr
  obtain ⟨row, hrow, hr⟩ := List.mem_flatMap.1 hr
  cases path with
  | none =>
    obtain rfl := List.mem_singleton.1 hr
    exact hP.columns (r := row) [row.target] (h row hrow)
  | some path =>
    obtain ⟨st, -, rfl⟩ := List.mem_map.1 hr
    exact hP.columns [path.valueOf st, st.quoted] (hP.afresh (h row hrow))

/-- The targets that pass a test are rows of the targets, cut. -/
theorem countValues (h : p.Has P) (q : Plan) (label : String) (test : List Term → Bool) :
    (Plan.countValues p q label test).Has P := by
  intro r hr
  obtain ⟨t, ht, rfl⟩ := List.mem_map.1 ((Plan.sublist_countValues p q label test).mem hr)
  exact hP.columns _ (h t ht)

/-- So a union of members keeps what persists. -/
theorem unites : Plan.Unites (Has P) := by
  intro plans ownPath _ h
  refine (Has.union fun p hp => ?_).unique none
  unfold Member.unionInputs at hp
  split at hp
  · exact h p hp
  · obtain ⟨q, hq, rfl⟩ := List.mem_map.1 hp
    exact hP.trim (h q hq) _

/-! ## Constraints -/

/-- The targets of a constraint have the property, if all that are selected have it and all that are
handed down. -/
theorem focus {ctx : Context} {frame : Frame} (hscan : (ctx.scan frame).Has P)
    {given : Option Offer} (hgiven : Unshared.OfferHas (Has P) given) :
    Unshared.Ensures (Unshared.focus ctx frame given) (Has P) := by
  cases given with
  | none => exact .pure hscan
  | some offer =>
    cases offer with
    | error e => exact .error _
    | ok q => exact .pure ((hP.trim (hgiven q rfl) _).sort.unique none)

/-- The violations of a constraint have what their targets have. -/
theorem violationsOf {ctx : Context} (hs : ctx.source.Reliable) (frame : Frame) (c : Constraint)
    (h : p.Has P) : (Unshared.violationsOf ctx frame c p).Has P := by
  unfold Unshared.violationsOf
  cases c.isValueLevel with
  | true => exact (hP.valuesOf hs h frame.path).filter _ _
  | false => exact hP.countValues h _ _ _

/-- The rows of a constraint are rows of its targets, with a tag. -/
theorem plan {ctx : Context} (hs : ctx.source.Reliable) {frame : Frame}
    (hscan : (ctx.scan frame).Has P) {given : Option Offer}
    (hgiven : Unshared.OfferHas (Has P) given) (c : Constraint) (negate : Bool) {Q : Row → Prop}
    {id : ShapeId} (hid : ∀ {r}, P r → Q (r.tag id)) :
    Unshared.Ensures (Unshared.plan ctx frame id c given negate) (Has Q) := by
  refine (hP.focus hscan hgiven).bind fun p hp => .pure (Has.tag ?_ hid)
  cases negate with
  | true => exact hp.antiJoin _
  | false => exact hP.violationsOf hs frame c hp

end Row.Persists

namespace Row.Inherited

open Plan (Has)

variable {P : Row → Prop} (hP : Row.Inherited P) {p q : Plan}
include hP

/-! ## Joins and what the planner combines -/

/-- A row that takes up what others carry along has what is inherited if they all have. -/
theorem foldl_absorb : ∀ {others : List Row} {r : Row}, P r → (∀ b ∈ others, P b) →
    P (others.foldl Row.absorb r)
  | [], _, hr, _ => hr
  | _ :: _, _, hr, hothers => by
    obtain ⟨hb, hothers⟩ := List.forall_mem_cons.1 hothers
    rw [List.foldl_cons]
    exact foldl_absorb (hP.absorb hr hb) hothers

/-- The pairs of an equality join have what both inputs have. -/
theorem equalsJoin (h : p.Has P) (h' : q.Has P) (allColumns : Bool) :
    (Plan.equalsJoin p q allColumns).Has P := by
  intro r hr
  obtain ⟨a, ha, b, hb, n, rfl⟩ := Plan.mem_equalsJoin hr
  exact hP.absorb (hP.columns _ (h a ha)) (h' b hb)

/-- So have the targets of an inner join. -/
theorem innerJoin (h : p.Has P) (h' : q.Has P) : (Plan.innerJoin p q).Has P := by
  intro r hr
  obtain ⟨a, ha, others, hothers, rfl⟩ := Plan.mem_innerJoin hr
  exact hP.foldl_absorb (hP.columns _ (h a ha)) fun b hb => h' b (hothers b hb)

/-- So have the rows of a chain of equality joins. -/
theorem foldl_equalsJoin : ∀ {ps : List Plan} {p : Plan}, p.Has P → (∀ q ∈ ps, q.Has P) →
    (ps.foldl (fun acc p => Plan.equalsJoin acc p true) p).Has P
  | [], _, hp, _ => hp
  | _ :: _, _, hp, hps => by
    obtain ⟨hq, hps⟩ := List.forall_mem_cons.1 hps
    rw [List.foldl_cons]
    exact foldl_equalsJoin (hP.equalsJoin hp hq true) hps

/-- So have the rows of a chain of inner joins. -/
theorem foldl_innerJoin : ∀ {ps : List Plan} {p : Plan}, p.Has P → (∀ q ∈ ps, q.Has P) →
    (ps.foldl (fun acc p => Plan.innerJoin acc p.distinctTargets) p).Has P
  | [], _, hp, _ => hp
  | _ :: _, _, hp, hps => by
    obtain ⟨hq, hps⟩ := List.forall_mem_cons.1 hps
    rw [List.foldl_cons]
    exact foldl_innerJoin (hP.innerJoin hp (hP.distinctTargets hq)) hps

/-- So has an intersection, in either layout. -/
theorem intersection {first : Plan} {rest : List Plan} (h : ∀ p ∈ first :: rest, p.Has P)
    (layout : Layout) : (Member.intersection layout first rest).Has P := by
  obtain ⟨hfirst, hrest⟩ := List.forall_mem_cons.1 h
  have honly : (Plan.union [first]).Has P := Has.union (List.forall_mem_singleton.2 hfirst)
  cases layout with
  | tripleBased =>
    cases rest with
    | nil => exact honly.unique none
    | cons p rest => exact hP.foldl_equalsJoin hfirst hrest
  | aggregated =>
    cases rest with
    | nil => exact hP.distinctTargets honly
    | cons p rest => exact hP.foldl_innerJoin (hP.distinctTargets hfirst) hrest

/-- Every combination of plans hands the property on, the candidates of a disjunction too. -/
theorem combines : Plan.Combines (Has P) (Has P) where
  relabel _ h := h.relabel _
  unite := hP.unites
  intersection ownPath h := hP.intersection h _
  candidates h := by
    refine (Has.union fun p hp => ?_).unique none
    obtain ⟨q, hq, rfl⟩ := List.mem_map.1 hp
    exact hP.trim (h q hq) _

/-- If the selected targets of all leaves have the property and tags do not matter to it, the
planner keeps it. -/
theorem kept {ctx : Context} (hs : ctx.source.Reliable) {targets : List Target}
    {leaf : Option Path → Constraint → Prop}
    (hscan : ∀ path c, leaf path c → (ctx.scan ⟨targets, path⟩).Has P)
    (htag : ∀ {r : Row} (id : ShapeId), P r → P (r.tag id)) :
    Plan.Kept ctx targets leaf (Has P) (Has P) where
  plan id negate hl hgiven := hP.plan hs (hscan _ _ hl) hgiven _ negate (htag id)
  tag id h := h.tag (htag id)
  relabel := hP.combines.relabel
  unite := hP.combines.unite
  intersection := hP.combines.intersection
  candidates := hP.combines.candidates

end Row.Inherited

end GraphShapes
