import GraphShapes.Proofs.Meaning.Rows

/-!
# What a pass reports about a shape

A pass does not judge all targets everywhere. Which targets it looks at may depend on the path, it
passes over members that its delta cannot bear on, and it judges the branches of a disjunction
only for its candidates, the targets that violate some branch. A `View` says how a pass sees a
graph, and `Shape.changes` which lines the pass then reports; a bulk pass is the view that sees
every target everywhere.

Passing over a member loses nothing (`bare_changes`): where a delta does not bear, the view sees no
target. A view that sees the same targets everywhere and passes over nothing reports exactly
`Shape.rows` for these targets (`changes_uniform`), whether it looks at candidates first or not.
-/

namespace GraphShapes

open Table (Reports unite intersect)

/-- How a pass sees a graph. -/
structure View where
  /-- The data. -/
  graph : Store
  /-- The targets that are looked at where a path holds. -/
  targets : Option Path → Finset Term
  /-- Whether the delta bears on the targets or on their values where a path holds. -/
  bears : Option Path → Bool
  /-- Whether disjunctions are judged for their candidates only. -/
  restricted : Bool
  idle : ∀ path, bears path = false → targets path = ∅

/-- What a conjunction or disjunction of a pass has to know of a member. -/
structure Piece where
  /-- What the pass reports about the member. -/
  found : Option Table
  /-- What the member reports about given targets of a graph. -/
  among : Store → Finset Term → Option Table
  /-- Does the member set a path other than the one it would inherit? -/
  ownPath : Bool
  /-- Can the delta bear on the member? -/
  touched : Bool
  pointwise : ∀ {G X Y}, Y ⊆ X → among G Y = (among G X).map (Table.restrict Y)

namespace Piece

/-- The member as the pass sees it. -/
def part (p : Piece) : Table.Part := ⟨p.found, p.ownPath⟩

/-- The member as the pass sees it, unless the delta cannot bear on it. -/
def touchedPart (p : Piece) : Table.Part := ⟨if p.touched then p.found else none, p.ownPath⟩

/-- The member for given targets of a graph. -/
def partAmong (G : Store) (X : Finset Term) (p : Piece) : Table.Part := ⟨p.among G X, p.ownPath⟩

/-- The branches for given targets of a graph. -/
def branchesAmong (G : Store) (X : Finset Term) (branches : List (List Piece)) :
    List (List Table.Part) :=
  branches.map fun b => b.map (partAmong G X)

/-- The violators of some branch, each branch judged by itself. -/
def candidates (branches : List (List Piece)) : List Table :=
  branches.filterMap fun b => unite (b.map touchedPart)

variable {G : Store} {X Y : Finset Term}

/-- For fewer targets the parts are cut down to these. -/
theorem map_partAmong (h : Y ⊆ X) (pieces : List Piece) :
    pieces.map (partAmong G Y) = (pieces.map (partAmong G X)).map (Table.Part.restrict Y) := by
  rw [List.map_map]
  exact List.map_congr_left fun p _ => Table.Part.ext (p.pointwise h) rfl

/-- For fewer targets every branch is cut down to these. -/
theorem branchesAmong_restrict (h : Y ⊆ X) (branches : List (List Piece)) :
    branchesAmong G Y branches =
      (branchesAmong G X branches).map fun b => b.map (Table.Part.restrict Y) := by
  unfold branchesAmong
  rw [List.map_map]
  exact List.map_congr_left fun b _ => map_partAmong h b

/-- Branches of one piece each are judged piece by piece. -/
theorem branchesAmong_singletons (G : Store) (X : Finset Term) (pieces : List Piece) :
    branchesAmong G X (pieces.map fun p => [p]) =
      (pieces.map (partAmong G X)).map fun p => [p] := by
  unfold branchesAmong
  rw [List.map_map, List.map_map]
  rfl

end Piece

/-- The targets that some table is about. -/
def Table.targetsOf (tables : List Table) : Finset Term :=
  tables.foldr (fun t targets => t.targets ∪ targets) ∅

/-- A target is collected if one of the tables mentions it. -/
theorem Table.mem_targetsOf {tables : List Table} {t : Term} :
    t ∈ targetsOf tables ↔ ∃ x ∈ tables, x.Mentions t := by
  induction tables with
  | nil => simp [targetsOf]
  | cons x tables ih =>
    show t ∈ x.targets ∪ targetsOf tables ↔ _
    rw [Finset.mem_union, ih, List.exists_mem_cons_iff, mem_targets]

namespace View

/-- What the pass reports about a conjunction. -/
def conjoin (pieces : List Piece) : Option Table := unite (pieces.map Piece.touchedPart)

/-- What the pass reports about several branches, of which each has to be violated. -/
def intersectBranches (view : View) (branches : List (List Piece)) : Option Table :=
  if view.restricted then
    if Piece.candidates branches = [] then none
    else
      intersect
        (Piece.branchesAmong view.graph (Table.targetsOf (Piece.candidates branches)) branches)
  else intersect (branches.map fun b => b.map Piece.part)

/-- What the pass reports about a disjunction. -/
def disjoin (view : View) : List (List Piece) → Option Table
  | [[only]] => only.found
  | branches => view.intersectBranches branches

/-- The negation of a branch. -/
def negatedBranch (view : View) (negations : List Piece) : Piece where
  found := view.disjoin (negations.map fun p => [p])
  among G X := Table.disjoin ((negations.map (Piece.partAmong G X)).map fun p => [p])
  ownPath := negations.any Piece.ownPath
  touched := negations.any Piece.touched
  pointwise h := by
    rw [← Piece.branchesAmong_singletons, ← Piece.branchesAmong_singletons,
      Piece.branchesAmong_restrict h, Table.disjoin_restrict]

end View

namespace Shape

mutual

/-- Can a delta that bears on these paths bear on the shape? -/
def touches (bears : Option Path → Bool) : Shape → Option Path → Bool
  | constraint h _, path => !h.deactivated && bears (h.path.or path)
  | conj h ms, path =>
    !h.deactivated && (bears (h.path.or path) || anyTouches bears ms (h.path.or path))
  | disj h bs, path =>
    !h.deactivated && (bears (h.path.or path) || anyBranchTouches bears bs (h.path.or path))
  | neg h inner, path =>
    !h.deactivated && (bears (h.path.or path) || touches bears inner (h.path.or path))

/-- Can the delta bear on one of the shapes? -/
def anyTouches (bears : Option Path → Bool) : List Shape → Option Path → Bool
  | [], _ => false
  | s :: rest, path => touches bears s path || anyTouches bears rest path

/-- Can the delta bear on a shape of one of the branches? -/
def anyBranchTouches (bears : Option Path → Bool) : List (List Shape) → Option Path → Bool
  | [], _ => false
  | b :: rest, path => anyTouches bears b path || anyBranchTouches bears rest path

end

mutual

/-- What a pass reports about the shape, or its negation, where a path holds. -/
def changes (view : View) : Shape → Option Path → Bool → Option Table
  | constraint h c, path, negate =>
    if h.deactivated then none
    else some (c.table view.graph (view.targets (h.path.or path)) (h.path.or path) negate)
  | conj h ms, path, negate =>
    if h.deactivated then none
    else if negate then view.disjoin ((pieces view ms (h.path.or path) true).map fun p => [p])
    else View.conjoin (pieces view ms (h.path.or path) false)
  | disj h bs, path, negate =>
    if h.deactivated then none
    else if negate then
      View.conjoin ((branchPieces view bs (h.path.or path) true).map view.negatedBranch)
    else view.disjoin (branchPieces view bs (h.path.or path) false)
  | neg h inner, path, negate =>
    if h.deactivated then none else changes view inner (h.path.or path) (!negate)

/-- Shapes as members of a conjunction, negated or not. -/
def pieces (view : View) : List Shape → Option Path → Bool → List Piece
  | [], _, _ => []
  | s :: rest, path, negate =>
    { found := changes view s path negate
      among := fun G X => s.rows G X path negate
      ownPath := s.hasOwnPath path
      touched := s.touches view.bears path
      pointwise := fun h => rows_restrict h s path negate } :: pieces view rest path negate

/-- The shapes of several branches as members, negated or not. -/
def branchPieces (view : View) :
    List (List Shape) → Option Path → Bool → List (List Piece)
  | [], _, _ => []
  | b :: rest, path, negate => pieces view b path negate :: branchPieces view rest path negate

end

/-- The shape as a member, negated or not. -/
def piece (view : View) (path : Option Path) (negate : Bool) (s : Shape) : Piece where
  found := s.changes view path negate
  among G X := s.rows G X path negate
  ownPath := s.hasOwnPath path
  touched := s.touches view.bears path
  pointwise h := rows_restrict h s path negate

/-- The pieces of several shapes are made one by one. -/
theorem pieces_eq_map (view : View) (path : Option Path) (negate : Bool) :
    ∀ ms : List Shape, pieces view ms path negate = ms.map (piece view path negate)
  | [] => rfl
  | s :: ms => by rw [pieces, pieces_eq_map view path negate ms]; rfl

/-- The pieces of several branches are made shape by shape. -/
theorem branchPieces_eq_map (view : View) (path : Option Path) (negate : Bool) :
    ∀ bs : List (List Shape),
      branchPieces view bs path negate = bs.map fun b => b.map (piece view path negate)
  | [] => rfl
  | b :: bs => by
    rw [branchPieces, branchPieces_eq_map view path negate bs, pieces_eq_map]
    rfl

/-- A delta bears on members if it bears on one of them. -/
theorem anyTouches_eq (bears : Option Path → Bool) (path : Option Path) :
    ∀ ms : List Shape, anyTouches bears ms path = ms.any fun s => s.touches bears path
  | [] => rfl
  | s :: ms => by rw [anyTouches, anyTouches_eq bears path ms]; rfl

/-- A delta bears on branches if it bears on a shape in one of them. -/
theorem anyBranchTouches_eq (bears : Option Path → Bool) (path : Option Path) :
    ∀ bs : List (List Shape),
      anyBranchTouches bears bs path = bs.any fun b => b.any fun s => s.touches bears path
  | [] => rfl
  | b :: bs => by
    rw [anyBranchTouches, anyBranchTouches_eq bears path bs, anyTouches_eq]
    rfl

end Shape

namespace Shape

variable {bears : Option Path → Bool} {h : ShapeHead} {path : Option Path}

/-- Where a delta bears on no part of a conjunction, it bears neither on its path nor on a member.
-/
theorem touches_conj {ms : List Shape} (ht : (conj h ms).touches bears path = false)
    (hd : ¬h.deactivated = true) :
    bears (h.path.or path) = false ∧ ∀ m ∈ ms, m.touches bears (h.path.or path) = false := by
  rw [touches, anyTouches_eq] at ht
  simpa [hd] using ht

/-- The same for a disjunction and the members of its branches. -/
theorem touches_disj {bs : List (List Shape)} (ht : (disj h bs).touches bears path = false)
    (hd : ¬h.deactivated = true) :
    bears (h.path.or path) = false ∧
      ∀ b ∈ bs, ∀ m ∈ b, m.touches bears (h.path.or path) = false := by
  rw [touches, anyBranchTouches_eq] at ht
  simpa [hd] using ht

/-- The same for a negation and what it negates. -/
theorem touches_neg {inner : Shape} (ht : (neg h inner).touches bears path = false)
    (hd : ¬h.deactivated = true) :
    bears (h.path.or path) = false ∧ inner.touches bears (h.path.or path) = false := by
  rw [touches] at ht
  simpa [hd] using ht

end Shape

/-! ## Induction over members -/

/-- Unless a single member is forwarded, a disjunction is an intersection of branches. -/
theorem View.disjoin_eq_intersectBranches {view : View} {branches : List (List Piece)}
    (h : ∀ p, branches ≠ [[p]]) : view.disjoin branches = view.intersectBranches branches := by
  unfold disjoin
  split
  · next p => exact absurd rfl (h p)
  · rfl

/-- The same where the branches are judged for given targets. -/
theorem Piece.disjoin_branchesAmong {G : Store} {X : Finset Term} {branches : List (List Piece)}
    (h : ∀ p, branches ≠ [[p]]) :
    Table.disjoin (branchesAmong G X branches) = intersect (branchesAmong G X branches) := by
  refine Table.disjoin_eq_intersect fun q hq => ?_
  match branches, hq with
  | [[p]], _ => exact h p rfl

theorem Piece.forall_mem_singletons {P : Piece → Prop} {pieces : List Piece}
    (h : ∀ p ∈ pieces, P p) : ∀ b ∈ pieces.map fun p => [p], ∀ p ∈ b, P p := by
  intro b hb p hp
  obtain ⟨q, hq, rfl⟩ := List.mem_map.1 hb
  rw [List.mem_singleton.1 hp]
  exact h q hq

/-- Judged for given targets, a negated branch is the disjunction of its negated members. -/
theorem View.map_partAmong_negatedBranch (view : View) (G : Store) (X : Finset Term)
    (branches : List (List Piece)) :
    (branches.map view.negatedBranch).map (Piece.partAmong G X) =
      (Piece.branchesAmong G X branches).map Table.Part.negatedBranch := by
  rw [Piece.branchesAmong, List.map_map, List.map_map]
  refine List.map_congr_left fun b _ => Table.Part.ext rfl ?_
  show List.any _ _ = List.any _ _
  rw [List.any_map]
  rfl

namespace Shape

/-- Judged for given targets, the pieces of members are the parts that `Shape.rows` combines. -/
theorem map_partAmong_piece (view : View) (G : Store) (X : Finset Term) (path : Option Path)
    (negate : Bool) (ms : List Shape) :
    (ms.map (piece view path negate)).map (Piece.partAmong G X) = parts G X ms path negate := by
  rw [parts_eq_map, List.map_map]
  rfl

/-- The same for the members of branches. -/
theorem branchesAmong_piece (view : View) (G : Store) (X : Finset Term) (path : Option Path)
    (negate : Bool) (bs : List (List Shape)) :
    Piece.branchesAmong G X (bs.map fun b => b.map (piece view path negate)) =
      branchParts G X bs path negate := by
  rw [branchParts_eq_map, Piece.branchesAmong, List.map_map]
  exact List.map_congr_left fun b _ => map_partAmong_piece view G X path negate b

end Shape

/-- A piece that finds, and judges of given targets, what the conjunction of its members does. -/
structure Piece.Conjoins (p : Piece) (members : List Piece) : Prop where
  found : p.found = View.conjoin members
  among : ∀ G X, p.among G X = unite (members.map (Piece.partAmong G X))
  touched : p.touched = false → ∀ m ∈ members, m.touched = false

/-- A piece that finds, and judges of given targets, what the disjunction of its branches does. -/
structure Piece.Disjoins (view : View) (p : Piece) (branches : List (List Piece)) : Prop where
  found : p.found = view.disjoin branches
  among : ∀ G X, p.among G X = Table.disjoin (Piece.branchesAmong G X branches)
  touched : p.touched = false → ∀ b ∈ branches, ∀ m ∈ b, m.touched = false

/-- A negated branch is the disjunction of its negated members. -/
theorem View.disjoins_negatedBranch (view : View) (b : List Piece) :
    (view.negatedBranch b).Disjoins view (b.map fun p => [p]) where
  found := rfl
  among G X := by
    rw [Piece.branchesAmong_singletons]
    rfl
  touched ht := Piece.forall_mem_singletons fun p hp =>
    Bool.eq_false_of_not_eq_true (List.any_eq_false.1 ht p hp)

namespace Shape

section Active

variable (view : View) {h : ShapeHead} (hd : ¬h.deactivated = true) {path : Option Path}
include hd

theorem conjoins_conj (ms : List Shape) :
    ((conj h ms).piece view path false).Conjoins (ms.map (piece view (h.path.or path) false)) where
  found := by
    rw [← pieces_eq_map]
    exact if_neg hd
  among G X := by
    rw [map_partAmong_piece]
    exact if_neg hd
  touched ht := List.forall_mem_map.2 fun m hm => (touches_conj ht hd).2 m hm

/-- A negated conjunction is a disjunction of branches with one member each. -/
theorem disjoins_conj (ms : List Shape) :
    ((conj h ms).piece view path true).Disjoins view
      ((ms.map (piece view (h.path.or path) true)).map fun p => [p]) where
  found := by
    rw [← pieces_eq_map]
    exact if_neg hd
  among G X := by
    rw [Piece.branchesAmong_singletons, map_partAmong_piece]
    exact if_neg hd
  touched ht := Piece.forall_mem_singletons <|
    List.forall_mem_map.2 fun m hm => (touches_conj ht hd).2 m hm

theorem disjoins_disj (bs : List (List Shape)) :
    ((disj h bs).piece view path false).Disjoins view
      (bs.map fun b => b.map (piece view (h.path.or path) false)) where
  found := by
    rw [← branchPieces_eq_map]
    exact if_neg hd
  among G X := by
    rw [branchesAmong_piece]
    exact if_neg hd
  touched ht := List.forall_mem_map.2 fun b hb => List.forall_mem_map.2 fun m hm =>
    (touches_disj ht hd).2 b hb m hm

/-- A negated disjunction is a conjunction whose members are the negated branches. -/
theorem conjoins_disj (bs : List (List Shape)) :
    ((disj h bs).piece view path true).Conjoins
      ((bs.map fun b => b.map (piece view (h.path.or path) true)).map view.negatedBranch) where
  found := by
    rw [← branchPieces_eq_map]
    exact if_neg hd
  among G X := by
    rw [View.map_partAmong_negatedBranch, branchesAmong_piece]
    exact if_neg hd
  touched ht := List.forall_mem_map.2 <| List.forall_mem_map.2 fun b hb => List.any_eq_false.2 <|
    List.forall_mem_map.2 fun m hm => Bool.not_eq_true _ ▸ (touches_disj ht hd).2 b hb m hm

theorem disjoins_neg (inner : Shape) (negate : Bool) :
    ((neg h inner).piece view path negate).Disjoins view
      [[inner.piece view (h.path.or path) (!negate)]] where
  found := if_neg hd
  among _ _ := if_neg hd
  touched ht := by
    have hinner : (inner.piece view (h.path.or path) (!negate)).touched = false :=
      (touches_neg ht hd).2
    simpa using hinner

end Active

/-- Whatever holds of members that are switched off and of constraints, and goes from the members
of a conjunction or disjunction to the whole, holds of every shape in every polarity. A negation is
the disjunction of a single branch with a single member, as it should be. -/
theorem piece_induction (view : View) {P : Piece → Prop}
    (hoff : ∀ p : Piece, p.found = none → (∀ G X, p.among G X = none) → P p)
    (hleaf : ∀ (p : Piece) (c : Constraint) (path : Option Path) (negate : Bool),
      p.found = some (c.table view.graph (view.targets path) path negate) →
      (∀ G X, p.among G X = some (c.table G X path negate)) →
      p.touched = view.bears path → P p)
    (hconj : ∀ (p : Piece) (members : List Piece), (∀ m ∈ members, P m) →
      p.Conjoins members → P p)
    (hdisj : ∀ (p : Piece) (branches : List (List Piece)), (∀ b ∈ branches, ∀ m ∈ b, P m) →
      p.Disjoins view branches → P p)
    (s : Shape) : ∀ (path : Option Path) (negate : Bool), P (s.piece view path negate) := by
  have hoff : ∀ {s : Shape}, s.deactivated = true → ∀ (path : Option Path) (negate : Bool),
      P (s.piece view path negate) := by
    intro s hs path negate
    refine hoff _ ?_ fun G X => ?_ <;> cases s <;> exact if_pos hs
  induction s using tree_induction with
  | constraint h c =>
    intro path negate
    by_cases hd : h.deactivated = true
    · exact hoff (s := constraint h c) hd path negate
    · refine hleaf _ c (h.path.or path) negate (if_neg hd) (fun G X => if_neg hd) ?_
      show touches view.bears (constraint h c) path = _
      simp [touches, hd]
  | conj h ms ih =>
    intro path negate
    by_cases hd : h.deactivated = true
    · exact hoff (s := conj h ms) hd path negate
    have hms : ∀ negate, ∀ p ∈ ms.map (piece view (h.path.or path) negate), P p := fun negate =>
      List.forall_mem_map.2 fun m hm => ih m hm _ _
    cases negate with
    | false => exact hconj _ _ (hms false) (conjoins_conj view hd ms)
    | true => exact hdisj _ _ (Piece.forall_mem_singletons (hms true)) (disjoins_conj view hd ms)
  | disj h bs ih =>
    intro path negate
    by_cases hd : h.deactivated = true
    · exact hoff (s := disj h bs) hd path negate
    have hbs : ∀ negate, ∀ b ∈ bs.map fun b => b.map (piece view (h.path.or path) negate),
        ∀ p ∈ b, P p := fun negate =>
      List.forall_mem_map.2 fun b hb => List.forall_mem_map.2 fun m hm => ih b hb m hm _ _
    cases negate with
    | false => exact hdisj _ _ (hbs false) (disjoins_disj view hd bs)
    | true =>
      -- the members of the conjunction are disjunctions themselves
      refine hconj _ _ (List.forall_mem_map.2 fun b hb => ?_) (conjoins_disj view hd bs)
      exact hdisj _ _ (Piece.forall_mem_singletons (hbs true b hb)) (view.disjoins_negatedBranch b)
  | neg h inner ih =>
    intro path negate
    by_cases hd : h.deactivated = true
    · exact hoff (s := neg h inner) hd path negate
    · refine hdisj _ _ ?_ (disjoins_neg view hd inner negate)
      simpa using ih _ _

end Shape

/-! ## Nothing is lost by passing over members -/

/-- The table, if any, has no lines. -/
def Table.Bare (table : Option Table) : Prop := ∀ t, table = some t → t.lines = ∅

namespace Table

theorem bare_none : Bare none := fun _ h => nomatch h

/-- A table that is bare, or missing, has no line. -/
theorem Bare.not_mem {table : Option Table} (h : Bare table) {t : Table} (ht : table = some t)
    (l : List Term) : l ∉ t.lines := by
  rw [h t ht]
  exact Finset.notMem_empty l

/-- A table that is bare, or missing, reports nothing. -/
theorem Bare.not_reports {table : Option Table} (h : Bare table) (t : Term) :
    ¬Reports table t := by
  intro hex
  obtain ⟨x, hx, l, hl, -⟩ := hex
  exact h.not_mem hx l hl

/-- Without lines there is nothing to cut. -/
theorem linesAs_of_empty {t : Table} (h : t.lines = ∅) (layout : Layout) :
    t.linesAs layout = ∅ := by
  cases layout with
  | tripleBased => exact h
  | aggregated =>
    show t.lines.image _ = ∅
    rw [h, Finset.image_empty]

/-- A union without lines in its parts has none. -/
theorem bare_unite {parts : List Table.Part} (h : ∀ p ∈ parts, Bare p.table) :
    Bare (unite parts) := by
  intro table ht
  refine Finset.eq_empty_of_forall_notMem fun l hl => ?_
  unfold unite at ht
  cases hp : tablesOf parts with
  | nil => rw [hp] at ht; cases ht
  | cons first rest =>
    rw [hp] at ht
    obtain rfl := Option.some.inj ht
    obtain ⟨x, hx, hlx⟩ := mem_unionAs.1 hl
    rw [← hp, mem_tablesOf] at hx
    obtain ⟨p, hpm, hpx⟩ := hx
    rw [linesAs_of_empty (h p hpm x hpx)] at hlx
    exact Finset.notMem_empty l hlx

/-- One bare branch with a table empties an intersection. -/
theorem bare_intersect {branches : List (List Table.Part)} (h : ∀ b ∈ branches, Bare (unite b)) :
    Bare (intersect branches) := by
  intro table ht
  refine Finset.eq_empty_of_forall_notMem fun l hl => ?_
  unfold intersect at ht
  cases hb : branches.filterMap unite with
  | nil => rw [hb] at ht; cases ht
  | cons first rest =>
    rw [hb] at ht
    obtain rfl := Option.some.inj ht
    have hfirst := mem_intersectionAs.1 hl first (List.mem_cons_self ..)
    have hmem : first ∈ branches.filterMap unite := hb ▸ List.mem_cons_self ..
    obtain ⟨b, hbm, hbx⟩ := List.mem_filterMap.1 hmem
    rw [linesAs_of_empty (h b hbm first hbx)] at hfirst
    exact Finset.notMem_empty l hfirst

/-- Tables without lines are about no target. -/
theorem targetsOf_eq_empty {tables : List Table} (h : ∀ t ∈ tables, t.lines = ∅) :
    targetsOf tables = ∅ := by
  refine Finset.eq_empty_of_forall_notMem fun t ht => ?_
  obtain ⟨x, hx, l, hl, -⟩ := mem_targetsOf.1 ht
  rw [h x hx] at hl
  exact Finset.notMem_empty l hl

end Table

open Table (Bare)

/-- There is nothing to say about no targets. -/
theorem Piece.bare_among_empty (p : Piece) (G : Store) : Bare (p.among G ∅) := by
  intro table h
  have hp := p.pointwise (G := G) (Finset.Subset.refl ∅)
  rw [h, Option.map_some, Option.some.injEq] at hp
  rw [hp]
  exact Finset.filter_false_of_mem fun _ _ h => by simp at h

namespace View

variable {view : View}

/-- A conjunction whose members find nothing finds nothing. -/
theorem bare_conjoin {pieces : List Piece} (h : ∀ p ∈ pieces, Bare p.found) :
    Bare (conjoin pieces) := by
  refine Table.bare_unite fun q hq => ?_
  obtain ⟨p, hp, rfl⟩ := List.mem_map.1 hq
  unfold Piece.touchedPart
  simp only
  split
  · exact h p hp
  · exact Table.bare_none

/-- The same for the branches of a disjunction. -/
theorem bare_intersectBranches {branches : List (List Piece)}
    (h : ∀ b ∈ branches, ∀ p ∈ b, Bare p.found) : Bare (view.intersectBranches branches) := by
  unfold intersectBranches
  split
  · split
    · exact Table.bare_none
    · -- no branch has a violator, so there are no candidates
      have hempty : Table.targetsOf (Piece.candidates branches) = ∅ := by
        refine Table.targetsOf_eq_empty fun t ht => ?_
        obtain ⟨b, hb, hbt⟩ := List.mem_filterMap.1 ht
        exact bare_conjoin (h b hb) t hbt
      rw [hempty]
      refine Table.bare_intersect fun parts hparts => ?_
      obtain ⟨b, hb, rfl⟩ := List.mem_map.1 hparts
      refine Table.bare_unite fun q hq => ?_
      obtain ⟨p, hp, rfl⟩ := List.mem_map.1 hq
      exact p.bare_among_empty _
  -- without candidates, each branch is judged by what its members found
  · refine Table.bare_intersect fun parts hparts => ?_
    obtain ⟨b, hb, rfl⟩ := List.mem_map.1 hparts
    refine Table.bare_unite fun q hq => ?_
    obtain ⟨p, hp, rfl⟩ := List.mem_map.1 hq
    exact h b hb p hp

/-- The same for a disjunction, also where a single member is forwarded. -/
theorem bare_disjoin {branches : List (List Piece)} (h : ∀ b ∈ branches, ∀ p ∈ b, Bare p.found) :
    Bare (view.disjoin branches) := by
  rcases Table.single_or branches with ⟨p, rfl⟩ | hs
  · exact h _ (List.mem_singleton.2 rfl) p (List.mem_singleton.2 rfl)
  · rw [disjoin_eq_intersectBranches hs]
    exact bare_intersectBranches h

end View

namespace Shape

/-- Where a pass sees no target, it reports no line: where the delta does not bear on a member, and
anywhere if there are no targets. -/
theorem bare_changes (view : View) (s : Shape) (path : Option Path) (negate : Bool)
    (h : s.touches view.bears path = false ∨ ∀ path, view.targets path = ∅) :
    Bare (s.changes view path negate) := by
  refine piece_induction view
    (P := fun p => (p.touched = false ∨ ∀ path, view.targets path = ∅) → Bare p.found)
    ?_ ?_ ?_ ?_ s path negate h
  · intro p hfound _ _
    rw [hfound]
    exact Table.bare_none
  · intro p c path negate hfound _ htouched hblind table htable
    have hempty : view.targets path = ∅ :=
      hblind.elim (fun ht => view.idle path (htouched ▸ ht)) fun hnone => hnone path
    rw [hfound, hempty] at htable
    rw [← Option.some.inj htable]
    rfl
  · rintro p members hmembers ⟨hfound, -, htouched⟩ hblind
    rw [hfound]
    exact View.bare_conjoin fun m hm => hmembers m hm (hblind.imp_left fun ht => htouched ht m hm)
  · rintro p branches hbranches ⟨hfound, -, htouched⟩ hblind
    rw [hfound]
    exact View.bare_disjoin fun b hb m hm =>
      hbranches b hb m hm (hblind.imp_left fun ht => htouched ht b hb m hm)

end Shape

/-! ## A view that sees the same targets everywhere -/

/-- The pass reports about the member what the member reports about the targets. -/
structure Piece.Uniform (G : Store) (X : Finset Term) (p : Piece) : Prop where
  found : p.found = p.among G X
  untouched : p.touched = false → p.found = none

namespace Piece

variable {G : Store} {X : Finset Term}

/-- A uniform piece is never passed over. -/
theorem Uniform.touchedPart {p : Piece} (h : p.Uniform G X) :
    p.touchedPart = p.partAmong G X := by
  refine Table.Part.ext ?_ rfl
  show (if p.touched then p.found else none) = p.among G X
  rw [← h.found]
  cases ht : p.touched with
  | true => rfl
  | false => rw [h.untouched ht]; rfl

/-- The candidates are the unions of the branches, as far as they have a table. -/
theorem candidates_eq {branches : List (List Piece)}
    (h : ∀ b ∈ branches, ∀ p ∈ b, p.Uniform G X) :
    candidates branches = (branchesAmong G X branches).filterMap unite := by
  unfold candidates branchesAmong
  rw [List.filterMap_map]
  refine List.filterMap_congr fun b hb => congrArg unite ?_
  exact List.map_congr_left fun p hp => (h b hb p hp).touchedPart

/-- A member reports about given targets only. -/
theorem mem_of_reports_among {p : Piece} {t : Term} (h : Reports (p.among G X) t) : t ∈ X := by
  rw [p.pointwise (Finset.Subset.refl X), Table.reports_restrict] at h
  exact h.2

end Piece

namespace View

variable {view : View} {X : Finset Term}

/-- A conjunction of uniform pieces reports what `Shape.rows` says of the targets. -/
theorem conjoin_uniform {G : Store} {pieces : List Piece} (h : ∀ p ∈ pieces, p.Uniform G X) :
    conjoin pieces = unite (pieces.map (Piece.partAmong G X)) :=
  congrArg unite (List.map_congr_left fun p hp => (h p hp).touchedPart)

/-- What is reported of all branches is reported of each, so it is among the candidates. -/
theorem intersect_candidates {branches : List (List Piece)}
    (h : ∀ b ∈ branches, ∀ p ∈ b, p.Uniform view.graph X) :
    intersect (Piece.branchesAmong view.graph
        (Table.targetsOf (Piece.candidates branches)) branches) =
      intersect (Piece.branchesAmong view.graph X branches) := by
  have hself := Piece.branchesAmong_restrict (G := view.graph) (Finset.Subset.refl X) branches
  -- no branch is judged for a target that the view does not see
  have hX : Table.targetsOf (Piece.candidates branches) ⊆ X := by
    intro t ht
    rw [Piece.candidates_eq h] at ht
    obtain ⟨x, hx, hm⟩ := Table.mem_targetsOf.1 ht
    obtain ⟨parts, hparts, hpx⟩ := List.mem_filterMap.1 hx
    obtain ⟨p, hp, hr⟩ := Table.reports_unite.1 ⟨x, hpx, hm⟩
    obtain ⟨b, -, rfl⟩ := List.mem_map.1 hparts
    obtain ⟨q, -, rfl⟩ := List.mem_map.1 hp
    exact Piece.mem_of_reports_among hr
  rw [Piece.branchesAmong_restrict hX, Table.intersect_restrict]
  cases hi : intersect (Piece.branchesAmong view.graph X branches) with
  | none => rfl
  | some table =>
    -- cutting the table to the candidates loses no line
    refine congrArg some (Table.restrict_eq_self fun l hl => ?_)
    have hline := hi
    rw [hself, Table.intersect_restrict] at hline
    obtain ⟨y, -, rfl⟩ := Option.map_eq_some_iff.1 hline
    obtain ⟨t, -, hlt⟩ := (Table.mem_restrict.1 hl).2
    refine ⟨t, Table.mem_targetsOf.2 ?_, hlt⟩
    have hall := Table.mentions_of_intersection hi ⟨l, hl, hlt⟩
    rw [← Piece.candidates_eq h] at hall
    cases hc : Piece.candidates branches with
    | nil =>
      -- without a branch that has a table, the intersection has none
      rw [Piece.candidates_eq h] at hc
      rw [intersect, hc] at hi
      cases hi
    | cons first rest =>
      exact ⟨first, List.mem_cons_self .., hall first (hc ▸ List.mem_cons_self ..)⟩

/-- So does an intersection of branches, since judging the candidates only loses nothing. -/
theorem intersectBranches_uniform {branches : List (List Piece)}
    (h : ∀ b ∈ branches, ∀ p ∈ b, p.Uniform view.graph X) :
    view.intersectBranches branches = intersect (Piece.branchesAmong view.graph X branches) := by
  unfold intersectBranches
  split
  · split
    · next hc =>
      rw [Piece.candidates_eq h] at hc
      rw [intersect, hc]
      rfl
    · exact intersect_candidates h
  · refine congrArg intersect (List.map_congr_left fun b hb => ?_)
    exact List.map_congr_left fun p hp => Table.Part.ext (h b hb p hp).found rfl

/-- So does a disjunction. -/
theorem disjoin_uniform {branches : List (List Piece)}
    (h : ∀ b ∈ branches, ∀ p ∈ b, p.Uniform view.graph X) :
    view.disjoin branches = Table.disjoin (Piece.branchesAmong view.graph X branches) := by
  rcases Table.single_or branches with ⟨p, rfl⟩ | hs
  · exact (h _ (List.mem_singleton.2 rfl) p (List.mem_singleton.2 rfl)).found
  · rw [disjoin_eq_intersectBranches hs, intersectBranches_uniform h,
      Piece.disjoin_branchesAmong hs]

end View

/-- A conjunction has no table if none of its members adds one. -/
theorem View.conjoin_eq_none {pieces : List Piece} (h : ∀ p ∈ pieces, p.touchedPart.table = none) :
    View.conjoin pieces = none := by
  refine Table.unite_eq_none_iff.2 fun q hq => ?_
  obtain ⟨p, hp, rfl⟩ := List.mem_map.1 hq
  exact h p hp

/-- A member adds no table if it is passed over or has none. -/
theorem Piece.touchedPart_eq_none {p : Piece} (h : p.touched = false ∨ p.found = none) :
    p.touchedPart.table = none := by
  show (if p.touched then p.found else none) = none
  rcases h with h | h <;> rw [h]
  · rfl
  · exact ite_self _

/-- A disjunction whose members have no table has none, with candidates or without. -/
theorem View.disjoin_eq_none {view : View} {branches : List (List Piece)}
    (h : ∀ b ∈ branches, ∀ p ∈ b, p.found = none) : view.disjoin branches = none := by
  rcases Table.single_or branches with ⟨p, rfl⟩ | hs
  · exact h _ (List.mem_singleton.2 rfl) p (List.mem_singleton.2 rfl)
  · rw [disjoin_eq_intersectBranches hs, intersectBranches]
    split
    · -- then there are no candidates either
      rw [if_pos]
      exact List.filterMap_eq_nil_iff.2 fun b hb =>
        View.conjoin_eq_none fun p hp => Piece.touchedPart_eq_none (.inr (h b hb p hp))
    · have hnone : (branches.map fun b => b.map Piece.part).filterMap unite = [] := by
        rw [List.filterMap_map]
        refine List.filterMap_eq_nil_iff.2 fun b hb => Table.unite_eq_none_iff.2 fun q hq => ?_
        obtain ⟨p, hp, rfl⟩ := List.mem_map.1 hq
        exact h b hb p hp
      rw [intersect, hnone]
      rfl

section Uniform

variable {view : View} {X : Finset Term} (htargets : ∀ path, view.targets path = X)
  (hbears : ∀ path, view.bears path = true)
include htargets hbears

/-- If the view sees the same targets everywhere and passes over nothing, every shape is uniform. -/
theorem Shape.piece_uniform (s : Shape) (path : Option Path) (negate : Bool) :
    (s.piece view path negate).Uniform view.graph X := by
  refine piece_induction view (P := Piece.Uniform view.graph X) ?_ ?_ ?_ ?_ s path negate
  · intro p hfound hamong
    exact ⟨hfound.trans (hamong _ _).symm, fun _ => hfound⟩
  · intro p c path negate hfound hamong htouched
    refine ⟨by rw [hfound, hamong, htargets], fun ht => ?_⟩
    rw [htouched, hbears] at ht
    cases ht
  · rintro p members hmembers ⟨hfound, hamong, htouched⟩
    refine ⟨by rw [hfound, hamong, View.conjoin_uniform hmembers], fun ht => hfound.trans ?_⟩
    exact View.conjoin_eq_none fun m hm => Piece.touchedPart_eq_none (.inl (htouched ht m hm))
  · rintro p branches hbranches ⟨hfound, hamong, htouched⟩
    refine ⟨(hfound.trans (View.disjoin_uniform hbranches)).trans (hamong _ _).symm,
      fun ht => hfound.trans ?_⟩
    -- a disjunction that is not touched has only members that are switched off
    exact View.disjoin_eq_none fun b hb m hm =>
      (hbranches b hb m hm).untouched (htouched ht b hb m hm)

/-- A pass that sees the same targets everywhere and to which everything is touched reports what
the shape reports about these targets. -/
theorem Shape.changes_uniform (s : Shape) (path : Option Path) (negate : Bool) :
    s.changes view path negate = s.rows view.graph X path negate :=
  (piece_uniform htargets hbears s path negate).found

/-- In such a pass, a shape that is not touched is switched off, or everything below it is. -/
theorem Shape.changes_eq_none {s : Shape} {path : Option Path}
    (h : s.touches view.bears path = false) (negate : Bool) : s.changes view path negate = none :=
  (piece_uniform htargets hbears s path negate).untouched h

end Uniform

/-- The view that sees the given targets wherever it looks, and to which everything is touched. -/
def View.everywhere (G : Store) (X : Finset Term) : View where
  graph := G
  targets _ := X
  bears _ := true
  restricted := false
  idle := nofun

/-- What a shape reports about given targets is what such a view reports. -/
theorem Shape.changes_everywhere (G : Store) (X : Finset Term) (s : Shape) (path : Option Path)
    (negate : Bool) : s.changes (.everywhere G X) path negate = s.rows G X path negate :=
  changes_uniform (fun _ => rfl) (fun _ => rfl) s path negate

end GraphShapes
