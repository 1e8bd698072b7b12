import GraphShapes.Proofs.Meaning.Table
import GraphShapes.Proofs.Shape.Tree
import GraphShapes.Proofs.Store.Scan

/-!
# What a shape reports about a graph

`Shape.rows` says, without plans, which lines a shape reports about the targets of a set: the
violations of the shape, or of its negation. It is the specification that bulk planning is
measured against.

A constraint that judges single values reports a line for every rejected value, any other
constraint the targets that it judges to be in violation, and a negated constraint the targets of
which the constraint reports nothing. A conjunction unites what its members report; a disjunction
intersects what its branches report. Negation moves down the tree: a negated conjunction is the
disjunction of its negated members, a negated disjunction the conjunction of its negated branches.
A shape that is switched off reports nothing and has no table.

Every target is judged by itself (`Shape.rows_restrict`): what is reported about some of the
targets does not depend on the others.
-/

namespace GraphShapes

/-! ## Targets and values -/

/-- The terms that a selector picks out of a graph. -/
def Target.picks (G : Store) : Target → List Term
  | instancesOf c =>
    (G.toList.filter fun st => st.predicate = Term.rdfType && st.object = c).map Statement.subject
  | nodes listed => listed
  | subjectsOf p => (G.toList.filter fun st => st.predicate = p).map Statement.subject
  | objectsOf p => (G.toList.filter fun st => st.predicate = p).map Statement.object

/-- The terms that one of the selectors picks. -/
def Store.selection (G : Store) (targets : List Target) : Finset Term :=
  (targets.flatMap (Target.picks G)).toFinset

/-- The statements that lead along a path from a target. -/
def Store.linked (G : Store) (p : Path) (t : Term) : List Statement := G.toList.filter (p.links t)

/-- The values of a target along a path; without one, the target itself. -/
def Store.valuesOf (G : Store) (path : Option Path) (t : Term) : List Term :=
  match path with
  | none => [t]
  | some p => (G.linked p t).map p.valueOf

namespace Constraint

/-- The lines of the rejected values of a target. -/
def rejectedLines (G : Store) (path : Option Path) (c : Constraint) (t : Term) :
    Finset (List Term) :=
  match path with
  | none => if c.accepts t then ∅ else {[t, t]}
  | some p =>
    (((G.linked p t).filter fun st => !c.accepts (p.valueOf st)).map
      fun st => [t, p.valueOf st, st.quoted]).toFinset

/-- The lines about a target in violation. -/
def violationLines (G : Store) (path : Option Path) (c : Constraint) (t : Term) :
    Finset (List Term) :=
  if c.isValueLevel then c.rejectedLines G path t
  else if c.violatedBy (G.valuesOf path t) then {[t]} else ∅

/-- The lines about a target in violation of the constraint, or of its negation. -/
def linesAt (G : Store) (path : Option Path) (negate : Bool) (c : Constraint) (t : Term) :
    Finset (List Term) :=
  if negate then if c.violationLines G path t = ∅ then {[t]} else ∅
  else c.violationLines G path t

/-- The layout of the lines. -/
def lineLayout (path : Option Path) (negate : Bool) (c : Constraint) : Layout :=
  if !negate && c.isValueLevel && path.isSome then .tripleBased else .aggregated

/-- The lines about all targets. -/
def table (G : Store) (T : Finset Term) (path : Option Path) (negate : Bool) (c : Constraint) :
    Table :=
  ⟨c.lineLayout path negate, T.biUnion (c.linesAt G path negate)⟩

end Constraint

/-- The negation of a branch: the disjunction of the negations of its members. -/
def Table.Part.negatedBranch (negations : List Table.Part) : Table.Part :=
  ⟨Table.disjoin (negations.map fun p => [p]), negations.any Table.Part.ownPath⟩

namespace Shape

open Table (unite disjoin)

mutual

/-- What the shape, or its negation, reports about targets where a path holds. -/
def rows (G : Store) (T : Finset Term) : Shape → Option Path → Bool → Option Table
  | constraint h c, path, negate =>
    if h.deactivated then none else some (c.table G T (h.path.or path) negate)
  | conj h ms, path, negate =>
    if h.deactivated then none
    else if negate then disjoin ((parts G T ms (h.path.or path) true).map fun p => [p])
    else unite (parts G T ms (h.path.or path) false)
  | disj h bs, path, negate =>
    if h.deactivated then none
    else if negate then
      unite ((branchParts G T bs (h.path.or path) true).map Table.Part.negatedBranch)
    else disjoin (branchParts G T bs (h.path.or path) false)
  | neg h inner, path, negate =>
    if h.deactivated then none else rows G T inner (h.path.or path) (!negate)

/-- Shapes as parts of a conjunction, negated or not. -/
def parts (G : Store) (T : Finset Term) : List Shape → Option Path → Bool → List Table.Part
  | [], _, _ => []
  | s :: rest, path, negate =>
    ⟨rows G T s path negate, s.hasOwnPath path⟩ :: parts G T rest path negate

/-- The shapes of several branches as parts, negated or not. -/
def branchParts (G : Store) (T : Finset Term) :
    List (List Shape) → Option Path → Bool → List (List Table.Part)
  | [], _, _ => []
  | b :: rest, path, negate => parts G T b path negate :: branchParts G T rest path negate

end

end Shape

/-! ## Every target is judged by itself -/

namespace Constraint

/-- A line of a rejected value is about its target. -/
theorem head?_of_mem_rejectedLines {G : Store} {path : Option Path} {c : Constraint} {t : Term}
    {l : List Term} (h : l ∈ c.rejectedLines G path t) : l.head? = some t := by
  unfold rejectedLines at h
  split at h
  · split at h
    · exact absurd h (Finset.notMem_empty _)
    · rw [Finset.mem_singleton.1 h]
      rfl
  · rw [List.mem_toFinset, List.mem_map] at h
    obtain ⟨st, -, rfl⟩ := h
    rfl

/-- So is a line of a violation. -/
theorem head?_of_mem_violationLines {G : Store} {path : Option Path} {c : Constraint} {t : Term}
    {l : List Term} (h : l ∈ c.violationLines G path t) : l.head? = some t := by
  unfold violationLines at h
  split at h
  · exact head?_of_mem_rejectedLines h
  · split at h
    · rw [Finset.mem_singleton.1 h]
      rfl
    · exact absurd h (Finset.notMem_empty _)

/-- So is it for either polarity. -/
theorem head?_of_mem_linesAt {G : Store} {path : Option Path} {negate : Bool} {c : Constraint}
    {t : Term} {l : List Term} (h : l ∈ c.linesAt G path negate t) : l.head? = some t := by
  unfold linesAt at h
  split at h
  · split at h
    · rw [Finset.mem_singleton.1 h]
      rfl
    · exact absurd h (Finset.notMem_empty _)
  · exact head?_of_mem_violationLines h

/-- A line is in the table of a constraint if its target is among those that are judged, and it is
one of that target. -/
theorem mem_table {G : Store} {T : Finset Term} {path : Option Path} {negate : Bool}
    {c : Constraint} {l : List Term} {t : Term} (ht : l.head? = some t) :
    l ∈ (c.table G T path negate).lines ↔ t ∈ T ∧ l ∈ c.linesAt G path negate t := by
  rw [table, Finset.mem_biUnion]
  constructor
  · intro h
    obtain ⟨u, hu, hl⟩ := h
    -- the line says about which target it is
    obtain rfl : u = t := Option.some.inj ((head?_of_mem_linesAt hl).symm.trans ht)
    exact ⟨hu, hl⟩
  · intro h
    obtain ⟨ht, hl⟩ := h
    exact ⟨t, ht, hl⟩

/-- A target is judged by its statements on the path, and by nothing else. -/
theorem linesAt_congr {G G' : Store} {path : Option Path} {t : Term}
    (h : ∀ p, path = some p → G.linked p t = G'.linked p t) (negate : Bool) (c : Constraint) :
    c.linesAt G path negate t = c.linesAt G' path negate t := by
  have hviolations : c.violationLines G path t = c.violationLines G' path t := by
    unfold violationLines rejectedLines Store.valuesOf
    cases path with
    | none => rfl
    | some p => simp only [h p rfl]
  rw [linesAt, linesAt, hviolations]

/-- A constraint judges every target by itself. -/
theorem table_restrict {G : Store} {X T : Finset Term} (h : X ⊆ T) (path : Option Path)
    (negate : Bool) (c : Constraint) :
    c.table G X path negate = (c.table G T path negate).restrict X := by
  -- the layout does not depend on the targets
  refine Table.ext rfl (Finset.ext fun l => ?_)
  rw [Table.mem_restrict, table, table, Finset.mem_biUnion, Finset.mem_biUnion]
  constructor
  · intro hex
    obtain ⟨t, ht, hl⟩ := hex
    exact ⟨⟨t, h ht, hl⟩, t, ht, head?_of_mem_linesAt hl⟩
  · intro hex
    obtain ⟨⟨t, -, hl⟩, x, hx, hlx⟩ := hex
    obtain rfl : t = x := Option.some.inj ((head?_of_mem_linesAt hl).symm.trans hlx)
    exact ⟨t, hx, hl⟩

end Constraint

namespace Shape

open Table (unite)

variable {G : Store} {T X : Finset Term}

/-- The parts of a conjunction are made member by member. -/
theorem parts_eq_map (G : Store) (T : Finset Term) (path : Option Path) (negate : Bool) :
    ∀ ms : List Shape, parts G T ms path negate =
      ms.map fun s => ⟨s.rows G T path negate, s.hasOwnPath path⟩
  | [] => rfl
  | s :: ms => by rw [parts, parts_eq_map G T path negate ms]; rfl

/-- The parts of a disjunction are made branch by branch. -/
theorem branchParts_eq_map (G : Store) (T : Finset Term) (path : Option Path) (negate : Bool) :
    ∀ bs : List (List Shape), branchParts G T bs path negate =
      bs.map fun b => parts G T b path negate
  | [] => rfl
  | b :: bs => by rw [branchParts, branchParts_eq_map G T path negate bs]; rfl

/-- The negation of a restricted branch is restricted. -/
theorem negatedBranch_restrict (negations : List Table.Part) :
    Table.Part.negatedBranch (negations.map (Table.Part.restrict X)) =
      (Table.Part.negatedBranch negations).restrict X := by
  have hbranches : (negations.map (Table.Part.restrict X)).map (fun p => [p]) =
      (negations.map fun p => [p]).map fun b => b.map (Table.Part.restrict X) := by
    rw [List.map_map, List.map_map]
    rfl
  refine Table.Part.ext ?_ ?_
  · show Table.disjoin ((negations.map _).map _) = (Table.disjoin _).map _
    rw [hbranches, Table.disjoin_restrict]
  · show (negations.map _).any _ = negations.any _
    rw [List.any_map]
    rfl

/-- The parts of a conjunction are restricted if its members are. -/
theorem parts_restrict {ms : List Shape} {path : Option Path} {negate : Bool}
    (h : ∀ m ∈ ms, m.rows G X path negate = (m.rows G T path negate).map (Table.restrict X)) :
    parts G X ms path negate = (parts G T ms path negate).map (Table.Part.restrict X) := by
  rw [parts_eq_map, parts_eq_map, List.map_map]
  exact List.map_congr_left fun m hm => Table.Part.ext (h m hm) rfl

/-- The parts of a disjunction are restricted if the members of its branches are. -/
theorem branchParts_restrict {bs : List (List Shape)} {path : Option Path} {negate : Bool}
    (h : ∀ b ∈ bs, ∀ m ∈ b,
      m.rows G X path negate = (m.rows G T path negate).map (Table.restrict X)) :
    branchParts G X bs path negate =
      (branchParts G T bs path negate).map fun b => b.map (Table.Part.restrict X) := by
  rw [branchParts_eq_map, branchParts_eq_map, List.map_map]
  exact List.map_congr_left fun b hb => parts_restrict (h b hb)

/-- What is switched off has no table. -/
theorem rows_of_deactivated {s : Shape} (hd : s.deactivated = true) (G : Store) (T : Finset Term)
    (path : Option Path) (negate : Bool) : s.rows G T path negate = none := by
  cases s <;> exact if_pos hd

/-- What is reported about some targets is what is reported about many, restricted to them. -/
theorem rows_restrict (h : X ⊆ T) (s : Shape) : ∀ (path : Option Path) (negate : Bool),
    s.rows G X path negate = (s.rows G T path negate).map (Table.restrict X) := by
  induction s using tree_induction with
  | constraint head c =>
    intro path negate
    rw [rows, rows]
    split
    · rfl
    · rw [Constraint.table_restrict h, Option.map_some]
  | conj head ms ih =>
    intro path negate
    rw [rows, rows]
    split
    · rfl
    · rw [parts_restrict fun m hm => ih m hm _ true, parts_restrict fun m hm => ih m hm _ false]
      split
      -- both combinators commute with the restriction, so the members may be restricted first
      · rw [← Table.disjoin_restrict, List.map_map, List.map_map]
        rfl
      · rw [Table.unite_restrict]
  | disj head bs ih =>
    intro path negate
    rw [rows, rows]
    split
    · rfl
    · rw [branchParts_restrict fun b hb m hm => ih b hb m hm _ true,
        branchParts_restrict fun b hb m hm => ih b hb m hm _ false]
      split
      · rw [← Table.unite_restrict, List.map_map, List.map_map]
        refine congrArg unite (List.map_congr_left fun b _ => ?_)
        exact negatedBranch_restrict b
      · rw [Table.disjoin_restrict]
  | neg head inner ih =>
    intro path negate
    rw [rows, rows]
    split
    · rfl
    · exact ih _ _

/-- Every line is about one of the targets. -/
theorem target_of_mem_rows {s : Shape} {path : Option Path} {negate : Bool} {table : Table}
    (h : s.rows G T path negate = some table) {l : List Term} (hl : l ∈ table.lines) :
    ∃ t ∈ T, l.head? = some t := by
  -- restricted to its own targets, the table is the same
  have hr := rows_restrict (G := G) (T := T) (Finset.Subset.refl T) s path negate
  rw [h, Option.map_some, Option.some.injEq] at hr
  rw [hr, Table.mem_restrict] at hl
  exact hl.2

/-- The lines about some targets are those of a larger table that are about them. -/
theorem hasLine_rows_of_subset (h : X ⊆ T) {s : Shape} {path : Option Path} {negate : Bool}
    {l : List Term} : Table.HasLine (s.rows G X path negate) l ↔
      Table.HasLine (s.rows G T path negate) l ∧ ∃ t ∈ X, l.head? = some t := by
  rw [rows_restrict h, Table.hasLine_restrict]

/-- Every line is about one of the targets that were judged. -/
theorem exists_head?_of_hasLine {s : Shape} {path : Option Path} {negate : Bool} {l : List Term}
    (h : Table.HasLine (s.rows G T path negate) l) : ∃ t ∈ T, l.head? = some t :=
  ((hasLine_rows_of_subset (Finset.Subset.refl T)).1 h).2

/-- Every line is one that is reported about a single target. -/
theorem hasLine_rows_iff {s : Shape} {path : Option Path} {negate : Bool} {l : List Term} :
    Table.HasLine (s.rows G T path negate) l ↔
      ∃ t ∈ T, Table.HasLine (s.rows G {t} path negate) l := by
  constructor
  · intro h
    obtain ⟨t, ht, hlt⟩ := exists_head?_of_hasLine h
    exact ⟨t, ht, (hasLine_rows_of_subset (Finset.singleton_subset_iff.2 ht)).2
      ⟨h, t, Finset.mem_singleton_self t, hlt⟩⟩
  · intro h
    obtain ⟨t, ht, hl⟩ := h
    exact ((hasLine_rows_of_subset (Finset.singleton_subset_iff.2 ht)).1 hl).1

end Shape

end GraphShapes
