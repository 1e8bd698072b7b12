import GraphShapes.Proofs.Meaning.Branches
import GraphShapes.Proofs.Meaning.Rows

/-!
# What it is to violate a shape

`Shape.violates` is the logic of the shape tree for one target, without tables and plans: a target
violates a conjunction if it violates a member, a disjunction if it violates every branch, and a
negation if it does not violate what is negated. Parts of the tree in which everything is switched
off (`Shape.isLive`) do not count.

What a shape reports about a graph is always right by this logic, for both polarities
(`fails_of_reports_rows`): the targets that are reported of a shape violate it, and those that are
reported of its negation do not. The converse can fail only at a disjunction of several branches
that compares whole lines. Where there is none in the tree (`Shape.comparesTargets`), every target
is reported of the polarity that it fails (`reports_rows_of_fails`).
-/

namespace GraphShapes

/-! ## Constraints -/

namespace Constraint

variable {G : Store} {path : Option Path} {c : Constraint} {t : Term}

/-- A constraint that judges single values judges a target by its rejected values. -/
theorem rejectedLines_eq_empty_iff (hv : c.isValueLevel = true) :
    c.rejectedLines G path t = ∅ ↔ c.violatedBy (G.valuesOf path t) = false := by
  have hviolated : ∀ values, c.violatedBy values = values.any fun v => !c.accepts v := by
    intro values
    cases c <;> first | rfl | cases hv
  rw [hviolated]
  cases path with
  | none => cases hc : c.accepts t <;> simp [rejectedLines, Store.valuesOf, hc]
  | some p => simp [rejectedLines, Store.valuesOf, List.filter_eq_nil_iff]

/-- A constraint has lines for a target exactly if the values there violate it. -/
theorem violationLines_eq_empty_iff :
    c.violationLines G path t = ∅ ↔ c.violatedBy (G.valuesOf path t) = false := by
  unfold violationLines
  split
  · next hv => exact rejectedLines_eq_empty_iff hv
  · cases c.violatedBy (G.valuesOf path t) <;> simp

/-- The same for either polarity. -/
theorem exists_mem_linesAt_iff {negate : Bool} :
    (∃ l, l ∈ c.linesAt G path negate t) ↔ c.violatedBy (G.valuesOf path t) = !negate := by
  have hempty : c.violationLines G path t = ∅ ↔ c.violatedBy (G.valuesOf path t) = false :=
    violationLines_eq_empty_iff
  unfold linesAt
  cases negate with
  | false =>
    show (c.violationLines G path t).Nonempty ↔ _
    rw [Finset.nonempty_iff_ne_empty, ne_eq, hempty, Bool.not_eq_false, Bool.not_false]
  | true =>
    rw [if_pos rfl, Bool.not_true, ← hempty]
    split
    · next h => simpa using h
    · next h => simpa using h

/-- A constraint reports exactly the targets that it judges to be in violation, and its negation
the others. -/
theorem reports_table_iff {negate : Bool} :
    Table.Reports (some (c.table G {t} path negate)) t ↔
      c.violatedBy (G.valuesOf path t) = !negate := by
  rw [← exists_mem_linesAt_iff]
  constructor
  · intro h
    obtain ⟨x, hx, l, hl, hlt⟩ := h
    obtain rfl := Option.some.inj hx
    exact ⟨l, ((mem_table hlt).1 hl).2⟩
  · intro h
    obtain ⟨l, hl⟩ := h
    have hlt := head?_of_mem_linesAt hl
    exact ⟨_, rfl, l, (mem_table hlt).2 ⟨Finset.mem_singleton_self t, hl⟩, hlt⟩

end Constraint

namespace Shape

/-! ## The logic of shapes -/

mutual

/-- Is there a constraint in the shape with nothing switched off above it? -/
def isLive : Shape → Bool
  | constraint h _ => !h.deactivated
  | conj h ms => !h.deactivated && anyLive ms
  | disj h bs => !h.deactivated && anyBranchLive bs
  | neg h inner => !h.deactivated && inner.isLive

/-- Is one of the shapes live? -/
def anyLive : List Shape → Bool
  | [] => false
  | s :: rest => s.isLive || anyLive rest

/-- Is a shape of one of the branches live? -/
def anyBranchLive : List (List Shape) → Bool
  | [] => false
  | b :: rest => anyLive b || anyBranchLive rest

end

mutual

/-- Does a target violate the shape where a path holds? -/
def violates (G : Store) (t : Term) : Shape → Option Path → Bool
  | constraint h c, path => !h.deactivated && c.violatedBy (G.valuesOf (h.path.or path) t)
  | conj h ms, path => !h.deactivated && violatesAny G t ms (h.path.or path)
  | disj h bs, path =>
    !h.deactivated && anyBranchLive bs && violatesEvery G t bs (h.path.or path)
  | neg h inner, path =>
    !h.deactivated && inner.isLive && !inner.violates G t (h.path.or path)

/-- Does the target violate one of the shapes? -/
def violatesAny (G : Store) (t : Term) : List Shape → Option Path → Bool
  | [], _ => false
  | s :: rest, path => s.violates G t path || violatesAny G t rest path

/-- Does the target violate every branch in which something is live? -/
def violatesEvery (G : Store) (t : Term) : List (List Shape) → Option Path → Bool
  | [], _ => true
  | b :: rest, path => (!anyLive b || violatesAny G t b path) && violatesEvery G t rest path

end

mutual

/-- Do the disjunctions in the shape, planned as it is or negated, compare nothing but targets? Of
what they compare only the layouts matter, and these are the same for every graph. -/
def comparesTargets : Shape → Option Path → Bool → Bool
  | constraint _ _, _, _ => true
  | conj h ms, path, negate =>
    h.deactivated || allCompareTargets ms (h.path.or path) negate &&
      (!negate ||
        Table.comparesTargets ((parts .empty ∅ ms (h.path.or path) true).map fun p => [p]))
  | disj h bs, path, negate =>
    h.deactivated || branchesCompareTargets bs (h.path.or path) negate &&
      (if negate then
        (branchParts .empty ∅ bs (h.path.or path) true).all fun b =>
          Table.comparesTargets (b.map fun p => [p])
      else Table.comparesTargets (branchParts .empty ∅ bs (h.path.or path) false))
  | neg h inner, path, negate =>
    h.deactivated || inner.comparesTargets (h.path.or path) (!negate)

/-- Does this hold of all shapes? -/
def allCompareTargets : List Shape → Option Path → Bool → Bool
  | [], _, _ => true
  | s :: rest, path, negate => s.comparesTargets path negate && allCompareTargets rest path negate

/-- Does it hold of the shapes of all branches? -/
def branchesCompareTargets : List (List Shape) → Option Path → Bool → Bool
  | [], _, _ => true
  | b :: rest, path, negate =>
    allCompareTargets b path negate && branchesCompareTargets rest path negate

end

/-- Members count if one of them does. -/
theorem anyLive_eq : ∀ ms : List Shape, anyLive ms = ms.any isLive
  | [] => rfl
  | m :: ms => by rw [anyLive, anyLive_eq ms, List.any_cons]

/-- Branches count if a member of one of them does. -/
theorem anyBranchLive_eq : ∀ bs : List (List Shape),
    anyBranchLive bs = bs.any fun b => b.any isLive
  | [] => rfl
  | b :: bs => by rw [anyBranchLive, anyBranchLive_eq bs, List.any_cons, anyLive_eq]

/-- To violate members is to violate one of them. -/
theorem violatesAny_eq (G : Store) (t : Term) (path : Option Path) : ∀ ms : List Shape,
    violatesAny G t ms path = ms.any fun m => m.violates G t path
  | [] => rfl
  | m :: ms => by rw [violatesAny, violatesAny_eq G t path ms, List.any_cons]

/-- To violate branches is to violate all that count. -/
theorem violatesEvery_eq (G : Store) (t : Term) (path : Option Path) : ∀ bs : List (List Shape),
    violatesEvery G t bs path =
      bs.all fun b => !b.any isLive || b.any fun m => m.violates G t path
  | [] => rfl
  | b :: bs => by
    rw [violatesEvery, violatesEvery_eq G t path bs, List.all_cons, anyLive_eq, violatesAny_eq]

/-- The same with the member named. -/
theorem anyLive_iff {ms : List Shape} : anyLive ms = true ↔ ∃ m ∈ ms, m.isLive = true := by
  rw [anyLive_eq, List.any_eq_true]

/-- The same with the branch and its member named. -/
theorem anyBranchLive_iff {bs : List (List Shape)} :
    anyBranchLive bs = true ↔ ∃ b ∈ bs, ∃ m ∈ b, m.isLive = true := by
  rw [anyBranchLive_eq, List.any_eq_true]
  simp only [List.any_eq_true]

section

variable {G : Store} {t : Term} {path : Option Path}

/-- The same with the violated member named. -/
theorem violatesAny_iff {ms : List Shape} :
    violatesAny G t ms path = true ↔ ∃ m ∈ ms, m.violates G t path = true := by
  rw [violatesAny_eq, List.any_eq_true]

/-- The same with the violated member of every branch named. -/
theorem violatesEvery_iff {bs : List (List Shape)} : violatesEvery G t bs path = true ↔
    ∀ b ∈ bs, (∃ m ∈ b, m.isLive = true) → ∃ m ∈ b, m.violates G t path = true := by
  rw [violatesEvery_eq, List.all_eq_true]
  refine forall₂_congr fun b _ => ?_
  rw [Bool.or_eq_true, List.any_eq_true, Bool.not_eq_true', ← Bool.not_eq_true, List.any_eq_true,
    imp_iff_not_or]

end

/-- Members compare targets if each of them does. -/
theorem allCompareTargets_iff {path : Option Path} {negate : Bool} : ∀ {ms : List Shape},
    allCompareTargets ms path negate = true ↔ ∀ m ∈ ms, m.comparesTargets path negate = true
  | [] => by simp [allCompareTargets]
  | m :: ms => by
    rw [allCompareTargets, Bool.and_eq_true, allCompareTargets_iff, List.forall_mem_cons]

/-- Branches compare targets if all of their members do. -/
theorem branchesCompareTargets_iff {path : Option Path} {negate : Bool} :
    ∀ {bs : List (List Shape)}, branchesCompareTargets bs path negate = true ↔
      ∀ b ∈ bs, ∀ m ∈ b, m.comparesTargets path negate = true
  | [] => by simp [branchesCompareTargets]
  | b :: bs => by
    rw [branchesCompareTargets, Bool.and_eq_true, allCompareTargets_iff,
      branchesCompareTargets_iff, List.forall_mem_cons]

/-- A shape in which nothing is live is violated by nothing. -/
theorem isLive_of_violates {G : Store} {t : Term} (s : Shape) :
    ∀ {path : Option Path}, s.violates G t path = true → s.isLive = true := by
  induction s using tree_induction with
  | constraint h c =>
    intro path hv
    rw [violates, Bool.and_eq_true] at hv
    exact hv.1
  | conj h ms ih =>
    intro path hv
    rw [violates, Bool.and_eq_true, violatesAny_iff] at hv
    obtain ⟨hd, m, hm, hmv⟩ := hv
    rw [isLive, hd, Bool.true_and, anyLive_iff]
    exact ⟨m, hm, ih m hm hmv⟩
  | disj h bs ih =>
    intro path hv
    rw [violates, Bool.and_eq_true] at hv
    exact hv.1
  | neg h inner ih =>
    intro path hv
    rw [violates, Bool.and_eq_true] at hv
    exact hv.1

/-- What does not count is not violated. -/
theorem violates_of_not_isLive {s : Shape} (hl : s.isLive = false) (G : Store) (t : Term)
    (path : Option Path) : s.violates G t path = false := by
  refine Bool.eq_false_of_not_eq_true fun hv => ?_
  rw [isLive_of_violates s hv] at hl
  cases hl

/-! ## Layouts do not depend on the graph -/

/-- About no targets at all, every graph says the same. -/
theorem rows_of_no_targets (G G' : Store) (s : Shape) : ∀ (path : Option Path) (negate : Bool),
    s.rows G ∅ path negate = s.rows G' ∅ path negate := by
  have hparts : ∀ {ms : List Shape},
      (∀ m ∈ ms, ∀ (path : Option Path) (negate : Bool),
        m.rows G ∅ path negate = m.rows G' ∅ path negate) →
      ∀ (path : Option Path) (negate : Bool),
        parts G ∅ ms path negate = parts G' ∅ ms path negate := by
    intro ms h path negate
    rw [parts_eq_map, parts_eq_map]
    exact List.map_congr_left fun m hm => Table.Part.ext (h m hm path negate) rfl
  induction s using tree_induction with
  | constraint h c =>
    intro path negate
    rw [rows, rows]
    rfl
  | conj h ms ih =>
    intro path negate
    rw [rows, rows, hparts ih, hparts ih]
  | disj h bs ih =>
    have hbranches : ∀ (path : Option Path) (negate : Bool),
        branchParts G ∅ bs path negate = branchParts G' ∅ bs path negate := by
      intro path negate
      rw [branchParts_eq_map, branchParts_eq_map]
      exact List.map_congr_left fun b hb => hparts (ih b hb) path negate
    intro path negate
    rw [rows, rows, hbranches, hbranches]
  | neg h inner ih =>
    intro path negate
    rw [rows, rows, ih]

section Blank

variable (G : Store) (T : Finset Term)

/-- Without targets a table keeps its layout, so it can be read off the empty graph. -/
theorem rows_blank (s : Shape) (path : Option Path) (negate : Bool) :
    s.rows .empty ∅ path negate = (s.rows G T path negate).map (Table.restrict ∅) := by
  rw [rows_of_no_targets .empty G, rows_restrict (Finset.empty_subset T)]

/-- The same for the parts that members add. -/
theorem parts_blank (ms : List Shape) (path : Option Path) (negate : Bool) :
    parts .empty ∅ ms path negate = (parts G T ms path negate).map (Table.Part.restrict ∅) := by
  rw [parts_eq_map, parts_eq_map, List.map_map]
  exact List.map_congr_left fun m _ => Table.Part.ext (rows_blank G T m path negate) rfl

/-- So whether branches are compared by their targets does not depend on the graph. -/
theorem comparesTargets_branchParts (bs : List (List Shape)) (path : Option Path)
    (negate : Bool) : Table.comparesTargets (branchParts .empty ∅ bs path negate) =
      Table.comparesTargets (branchParts G T bs path negate) := by
  have hblank : branchParts .empty ∅ bs path negate =
      (branchParts G T bs path negate).map fun b => b.map (Table.Part.restrict ∅) := by
    rw [branchParts_eq_map, branchParts_eq_map, List.map_map]
    exact List.map_congr_left fun b _ => parts_blank G T b path negate
  rw [hblank, Table.comparesTargets_restrict]

/-- The same for the negated members of a conjunction. -/
theorem comparesTargets_singletons (ms : List Shape) (path : Option Path) (negate : Bool) :
    Table.comparesTargets ((parts .empty ∅ ms path negate).map fun p => [p]) =
      Table.comparesTargets ((parts G T ms path negate).map fun p => [p]) := by
  have hblank : (parts .empty ∅ ms path negate).map (fun p => [p]) =
      ((parts G T ms path negate).map fun p => [p]).map
        fun b => b.map (Table.Part.restrict ∅) := by
    rw [parts_blank G T, List.map_map, List.map_map]
    rfl
  rw [hblank, Table.comparesTargets_restrict]

end Blank

/-! ## Shapes as parts -/

/-- The part that the shape is of a conjunction or disjunction. -/
def part (G : Store) (T : Finset Term) (path : Option Path) (negate : Bool) (s : Shape) :
    Table.Part := ⟨s.rows G T path negate, s.hasOwnPath path⟩

/-- The parts of a conjunction are made member by member. -/
theorem parts_eq_map_part (G : Store) (T : Finset Term) (ms : List Shape) (path : Option Path)
    (negate : Bool) : parts G T ms path negate = ms.map (part G T path negate) :=
  parts_eq_map G T path negate ms

/-- The parts of a disjunction are made branch by branch. -/
theorem branchParts_eq_map_part (G : Store) (T : Finset Term) (bs : List (List Shape))
    (path : Option Path) (negate : Bool) :
    branchParts G T bs path negate = bs.map fun b => b.map (part G T path negate) := by
  rw [branchParts_eq_map]
  exact List.map_congr_left fun b _ => parts_eq_map_part G T b path negate

section Active

variable {h : ShapeHead} (hd : h.deactivated = false) (G : Store) (T : Finset Term)
  (path : Option Path)
include hd

/-- A conjunction unites its members. -/
theorem rows_conj (ms : List Shape) : (conj h ms).rows G T path false =
    Table.unite (ms.map (part G T (h.path.or path) false)) := by
  rw [rows, hd, ← parts_eq_map_part]
  rfl

/-- The negation of a conjunction has a branch for every member. -/
theorem rows_neg_conj (ms : List Shape) : (conj h ms).rows G T path true =
    Table.disjoin ((ms.map (part G T (h.path.or path) true)).map fun p => [p]) := by
  rw [rows, hd, ← parts_eq_map_part]
  rfl

/-- A disjunction compares its branches. -/
theorem rows_disj (bs : List (List Shape)) : (disj h bs).rows G T path false =
    Table.disjoin (bs.map fun b => b.map (part G T (h.path.or path) false)) := by
  rw [rows, hd, ← branchParts_eq_map_part]
  rfl

/-- The negation of a disjunction has a member for every branch. -/
theorem rows_neg_disj (bs : List (List Shape)) : (disj h bs).rows G T path true =
    Table.unite (bs.map fun b =>
      Table.Part.negatedBranch (b.map (part G T (h.path.or path) true))) := by
  rw [rows, hd, branchParts_eq_map_part, List.map_map]
  rfl

/-- A negation has the lines of the other polarity of what it negates. -/
theorem rows_neg (negate : Bool) (inner : Shape) : (neg h inner).rows G T path negate =
    inner.rows G T (h.path.or path) (!negate) := by
  rw [rows, hd]
  rfl

end Active

/-! ## Shapes that have a table -/

section Live

variable {G : Store} {T : Finset Term}

/-- Some member has a table as soon as some member is live, if this holds of every member. -/
theorem exists_parts_iff {ms : List Shape} {path : Option Path} {negate : Bool}
    (h : ∀ m ∈ ms, m.rows G T path negate ≠ none ↔ m.isLive = true) :
    (∃ p ∈ parts G T ms path negate, p.table ≠ none) ↔ anyLive ms = true := by
  rw [parts_eq_map, anyLive_iff]
  simp only [List.mem_map, exists_exists_and_eq_and]
  exact exists_congr fun m => and_congr_right fun hm => h m hm

/-- A disjunction has a branch with a table exactly if a member of a branch counts. -/
theorem exists_branchParts_iff {bs : List (List Shape)} {path : Option Path} {negate : Bool}
    (h : ∀ b ∈ bs, ∀ m ∈ b, m.rows G T path negate ≠ none ↔ m.isLive = true) :
    (∃ b ∈ branchParts G T bs path negate, ∃ p ∈ b, p.table ≠ none) ↔
      anyBranchLive bs = true := by
  rw [branchParts_eq_map, anyBranchLive_iff]
  simp only [List.mem_map, exists_exists_and_eq_and]
  refine exists_congr fun b => and_congr_right fun hb => ?_
  exact (exists_parts_iff (h b hb)).trans anyLive_iff

/-- Exactly the live shapes have a table, in both polarities. -/
theorem rows_ne_none_iff (s : Shape) : ∀ (path : Option Path) (negate : Bool),
    s.rows G T path negate ≠ none ↔ s.isLive = true := by
  induction s using tree_induction with
  | constraint h c =>
    intro path negate
    rw [rows, isLive]
    cases h.deactivated <;> simp
  | conj h ms ih =>
    intro path negate
    rw [rows, isLive]
    cases h.deactivated with
    | true => simp
    | false =>
      cases negate with
      | false => exact Table.unite_ne_none_iff.trans (exists_parts_iff fun m hm => ih m hm _ _)
      | true =>
        exact Table.disjoin_singletons_ne_none_iff.trans (exists_parts_iff fun m hm => ih m hm _ _)
  | disj h bs ih =>
    intro path negate
    have hbranches := exists_branchParts_iff fun b hb m hm => ih b hb m hm (h.path.or path) negate
    rw [rows, isLive]
    cases h.deactivated with
    | true => simp
    | false =>
      cases negate with
      | false => exact Table.disjoin_ne_none_iff.trans hbranches
      | true =>
        -- a negated branch has a table just where the branch has one
        refine Table.unite_ne_none_iff.trans (Iff.trans ?_ hbranches)
        simp only [List.mem_map, exists_exists_and_eq_and]
        exact exists_congr fun b => and_congr_right fun _ => Table.disjoin_singletons_ne_none_iff
  | neg h inner ih =>
    intro path negate
    rw [rows, isLive]
    cases h.deactivated with
    | true => simp
    | false => exact ih _ _

end Live

/-! ## What is due -/

/-- By its logic: does the target violate the shape, or its negation? -/
def Fails (G : Store) (t : Term) (path : Option Path) (negate : Bool) (s : Shape) : Prop :=
  s.isLive = true ∧ s.violates G t path = !negate

section Fails

variable {G : Store} {t : Term} {path : Option Path} {negate : Bool} {h : ShapeHead}

/-- To fail a shape is to violate it. -/
theorem fails_iff_violates {s : Shape} :
    s.Fails G t path false ↔ s.violates G t path = true :=
  ⟨And.right, fun hv => ⟨isLive_of_violates s hv, hv⟩⟩

/-- What is switched off does not count. -/
theorem isLive_of_deactivated {s : Shape} (hd : s.deactivated = true) : s.isLive = false := by
  have hd : s.head.deactivated = true := hd
  cases s <;> · simp only [head] at hd; simp [isLive, hd]

/-- A target fails a constraint by its values, whichever polarity is asked for. -/
theorem fails_constraint_iff {c : Constraint} (hd : h.deactivated = false) :
    (constraint h c).Fails G t path negate ↔
      c.violatedBy (G.valuesOf (h.path.or path) t) = !negate := by
  rw [Fails, isLive, violates, hd]
  simp

/-- A target fails a conjunction if it fails a member. -/
theorem fails_conj_iff {ms : List Shape} (hd : h.deactivated = false) :
    (conj h ms).Fails G t path false ↔ ∃ m ∈ ms, m.Fails G t (h.path.or path) false := by
  rw [fails_iff_violates, violates, hd, Bool.not_false, Bool.true_and, violatesAny_iff]
  simp only [fails_iff_violates]

/-- None of the shapes is violated exactly if the negation of every live one is. -/
theorem forall_fails_true_iff {ms : List Shape} :
    (∀ m ∈ ms, m.isLive = true → m.Fails G t path true) ↔
      ¬∃ m ∈ ms, m.violates G t path = true := by
  constructor
  · intro hall hex
    obtain ⟨m, hm, hv⟩ := hex
    have hnv := (hall m hm (isLive_of_violates m hv)).2
    rw [hv] at hnv
    cases hnv
  · intro hno m hm hlive
    exact ⟨hlive, Bool.eq_false_of_not_eq_true fun hv => hno ⟨m, hm, hv⟩⟩

/-- A target fails the negation of a conjunction if it fails the negation of every member that
counts, and there is one. -/
theorem fails_neg_conj_iff {ms : List Shape} (hd : h.deactivated = false) :
    (conj h ms).Fails G t path true ↔ (∃ m ∈ ms, m.isLive = true) ∧
      ∀ m ∈ ms, m.isLive = true → m.Fails G t (h.path.or path) true := by
  rw [Fails, isLive, violates, hd, Bool.not_false, Bool.true_and, Bool.true_and, anyLive_iff,
    Bool.not_true, ← Bool.not_eq_true, violatesAny_iff, forall_fails_true_iff]

/-- A target fails a disjunction if it fails a member of every branch that counts, and there is one.
-/
theorem fails_disj_iff {bs : List (List Shape)} (hd : h.deactivated = false) :
    (disj h bs).Fails G t path false ↔ (∃ b ∈ bs, ∃ m ∈ b, m.isLive = true) ∧
      ∀ b ∈ bs, (∃ m ∈ b, m.isLive = true) → ∃ m ∈ b, m.Fails G t (h.path.or path) false := by
  rw [fails_iff_violates, violates, hd, Bool.not_false, Bool.true_and, Bool.and_eq_true,
    anyBranchLive_iff, violatesEvery_iff]
  simp only [fails_iff_violates]

/-- A target fails the negation of a disjunction if there is a branch that counts and it fails the
negation of every member of it that counts. -/
theorem fails_neg_disj_iff {bs : List (List Shape)} (hd : h.deactivated = false) :
    (disj h bs).Fails G t path true ↔ ∃ b ∈ bs, (∃ m ∈ b, m.isLive = true) ∧
      ∀ m ∈ b, m.isLive = true → m.Fails G t (h.path.or path) true := by
  rw [Fails, isLive, violates, hd, Bool.not_false, Bool.true_and]
  constructor
  · intro hex
    obtain ⟨hlive, hv⟩ := hex
    rw [hlive, Bool.true_and, Bool.not_true, ← Bool.not_eq_true, violatesEvery_iff] at hv
    simp only [Classical.not_forall] at hv
    obtain ⟨b, hb, hblive, hnone⟩ := hv
    exact ⟨b, hb, hblive, forall_fails_true_iff.2 hnone⟩
  · intro hex
    obtain ⟨b, hb, hblive, hall⟩ := hex
    have hlive : anyBranchLive bs = true := anyBranchLive_iff.2 ⟨b, hb, hblive⟩
    refine ⟨hlive, ?_⟩
    rw [hlive, Bool.true_and, Bool.not_true, ← Bool.not_eq_true, violatesEvery_iff]
    -- the branch is not violated, since no member of it is
    exact fun hevery => forall_fails_true_iff.1 hall (hevery b hb hblive)

/-- A target fails a negation if it fails the other polarity of what is negated. -/
theorem fails_neg_iff {inner : Shape} (hd : h.deactivated = false) :
    (neg h inner).Fails G t path negate ↔ inner.Fails G t (h.path.or path) (!negate) := by
  rw [Fails, Fails, isLive, violates, hd, Bool.not_false, Bool.true_and]
  refine and_congr_right fun hlive => ?_
  rw [hlive, Bool.true_and]
  cases inner.violates G t (h.path.or path) <;> cases negate <;> simp

end Fails

/-! ## What is reported is due -/

section Judges

variable {G : Store} {t : Term} {path : Option Path} {h : ShapeHead}

/-- The shape reports the target only if it is due, and if nothing is lost exactly then. -/
abbrev IsJudged (G : Store) (t : Term) (s : Shape) : Prop :=
  ∀ (path : Option Path) (negate : Bool), Table.Judges (s.rows G {t} path negate) t
    (s.Fails G t path negate) (s.comparesTargets path negate = true)

/-- A shape that is switched off reports nothing. -/
theorem judged_of_deactivated {s : Shape} (hd : s.deactivated = true) : IsJudged G t s := by
  intro path negate
  rw [rows_of_deactivated hd]
  refine ⟨fun hr => absurd hr Table.not_reports_none, fun _ hf => ?_⟩
  have hlive := hf.1
  rw [isLive_of_deactivated hd] at hlive
  cases hlive

/-- A conjunction is judged rightly if its members are. -/
theorem judged_conj {ms : List Shape} (hd : h.deactivated = false)
    (ih : ∀ m ∈ ms, IsJudged G t m) : IsJudged G t (conj h ms) := by
  intro path negate
  rw [comparesTargets, hd, Bool.false_or, Bool.and_eq_true, allCompareTargets_iff]
  cases negate with
  | false =>
    rw [rows_conj hd]
    exact (Table.judges_unite fun m hm => ih m hm (h.path.or path) false).congr
      (fails_conj_iff hd) And.left
  | true =>
    have hdisjoin := Table.judges_singletons (f := part G {t} (h.path.or path) true)
      (fun m _ => rows_ne_none_iff m _ _) fun m hm => ih m hm (h.path.or path) true
    rw [rows_neg_conj hd, comparesTargets_singletons G {t}, parts_eq_map_part]
    exact hdisjoin.congr (fails_neg_conj_iff hd) And.symm

/-- A disjunction is judged rightly if the members of its branches are. -/
theorem judged_disj {bs : List (List Shape)} (hd : h.deactivated = false)
    (ih : ∀ b ∈ bs, ∀ m ∈ b, IsJudged G t m) : IsJudged G t (disj h bs) := by
  intro path negate
  rw [comparesTargets, hd, Bool.false_or, Bool.and_eq_true, branchesCompareTargets_iff]
  cases negate with
  | false =>
    have hdisjoin := Table.judges_disjoin (f := part G {t} (h.path.or path) false)
      (fun b _ m _ => rows_ne_none_iff m _ _) fun b hb m hm => ih b hb m hm (h.path.or path) false
    rw [if_neg Bool.false_ne_true, rows_disj hd, comparesTargets_branchParts G {t},
      branchParts_eq_map_part]
    exact hdisjoin.congr (fails_disj_iff hd) And.symm
  | true =>
    -- a negated branch is judged as a disjunction of single members, the union of these as a whole
    have hbranch := fun (b : List Shape) (hb : b ∈ bs) => Table.judges_singletons
      (f := part G {t} (h.path.or path) true) (fun m _ => rows_ne_none_iff m _ _)
      fun m (hm : m ∈ b) => ih b hb m hm (h.path.or path) true
    have hunite := Table.judges_unite (f := fun b : List Shape =>
      Table.Part.negatedBranch (b.map (part G {t} (h.path.or path) true))) hbranch
    rw [if_pos rfl, rows_neg_disj hd]
    refine hunite.congr (fails_neg_disj_iff hd) ?_
    intro hl b hb
    refine ⟨?_, hl.1 b hb⟩
    have hb' := List.all_eq_true.1 hl.2 (parts .empty ∅ b (h.path.or path) true)
      (by rw [branchParts_eq_map]; exact List.mem_map_of_mem hb)
    rw [comparesTargets_singletons G {t}, parts_eq_map_part] at hb'
    exact hb'

/-- A negation is judged rightly if what it negates is. -/
theorem judged_neg {inner : Shape} (hd : h.deactivated = false) (ih : IsJudged G t inner) :
    IsJudged G t (neg h inner) := by
  intro path negate
  rw [rows_neg hd, comparesTargets, hd, Bool.false_or]
  exact (ih (h.path.or path) (!negate)).congr (fails_neg_iff hd) fun hl => hl

/-- Every shape reports only what is due, and everything that is due where nothing is lost. -/
theorem isJudged (G : Store) (t : Term) (s : Shape) : IsJudged G t s := by
  induction s using active_induction with
  | deactivated s hd => exact judged_of_deactivated hd
  | constraint h c hd =>
    intro path negate
    rw [rows, hd, if_neg Bool.false_ne_true]
    refine ⟨fun hr => ?_, fun _ hf => ?_⟩
    · exact (fails_constraint_iff hd).2 (Constraint.reports_table_iff.1 hr)
    · exact Constraint.reports_table_iff.2 ((fails_constraint_iff hd).1 hf)
  | conj h ms hd ih => exact judged_conj hd ih
  | disj h bs hd ih => exact judged_disj hd ih
  | neg h inner hd ih => exact judged_neg hd ih

end Judges

section Reported

variable {G : Store} {T : Finset Term} {s : Shape} {path : Option Path} {negate : Bool} {t : Term}

/-- What is reported about many targets is reported about each of them. -/
theorem reports_rows_iff_of_mem (ht : t ∈ T) :
    Table.Reports (s.rows G T path negate) t ↔ Table.Reports (s.rows G {t} path negate) t := by
  rw [rows_restrict (Finset.singleton_subset_iff.2 ht), Table.reports_restrict]
  exact (and_iff_left (Finset.mem_singleton_self t)).symm

/-- What is reported is due, and about one of the targets. -/
theorem fails_of_reports_rows (h : Table.Reports (s.rows G T path negate) t) :
    t ∈ T ∧ s.Fails G t path negate := by
  have ht : t ∈ T := by
    obtain ⟨x, hx, l, hl, hlt⟩ := h
    obtain ⟨u, hu, hlu⟩ := target_of_mem_rows hx hl
    exact Option.some.inj (hlu.symm.trans hlt) ▸ hu
  exact ⟨ht, (isJudged G t s path negate).sound ((reports_rows_iff_of_mem ht).1 h)⟩

/-- Where only targets are compared, everything that is due is reported. -/
theorem reports_rows_of_fails (hc : s.comparesTargets path negate = true) (ht : t ∈ T)
    (h : s.Fails G t path negate) : Table.Reports (s.rows G T path negate) t :=
  (reports_rows_iff_of_mem ht).2 ((isJudged G t s path negate).complete hc h)

end Reported

end Shape

end GraphShapes
