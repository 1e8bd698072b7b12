import GraphShapes.Planner

/-!
# Shape trees as trees

Members and branches are lists of shapes inside shapes. `Shape.tree_induction` is induction over a
shape with the hypothesis for every member, or every member of every branch. What holds of a shape
that is switched off rarely depends on what it combines: `Shape.active_induction` makes it a case of
its own.

`Shape.wellFormed` is the shape trees that can be planned: below an active conjunction there is a
member, and an active disjunction has branches and each of them a member. `Shape.HasLeaf` is the
constraints of a shape that are not switched off, each with the path that holds there.
-/

namespace GraphShapes

namespace Shape

/-- Induction over a shape tree. -/
theorem tree_induction {P : Shape → Prop} (constraint : ∀ h c, P (.constraint h c))
    (conj : ∀ h ms, (∀ m ∈ ms, P m) → P (.conj h ms))
    (disj : ∀ h bs, (∀ b ∈ bs, ∀ m ∈ b, P m) → P (.disj h bs))
    (neg : ∀ h s, P s → P (.neg h s)) (s : Shape) : P s :=
  @Shape.rec P (fun ms => ∀ m ∈ ms, P m) (fun bs => ∀ b ∈ bs, ∀ m ∈ b, P m) constraint conj disj neg
    (fun _ hm => absurd hm List.not_mem_nil)
    (fun _ _ hs hrest => List.forall_mem_cons.2 ⟨hs, hrest⟩)
    (fun _ hb => absurd hb List.not_mem_nil)
    (fun _ _ hb hrest => List.forall_mem_cons.2 ⟨hb, hrest⟩) s

/-- Induction over a shape tree, with one case for whatever is switched off. -/
theorem active_induction {P : Shape → Prop} (deactivated : ∀ s, s.deactivated = true → P s)
    (constraint : ∀ h c, h.deactivated = false → P (.constraint h c))
    (conj : ∀ h ms, h.deactivated = false → (∀ m ∈ ms, P m) → P (.conj h ms))
    (disj : ∀ h bs, h.deactivated = false → (∀ b ∈ bs, ∀ m ∈ b, P m) → P (.disj h bs))
    (neg : ∀ h s, h.deactivated = false → P s → P (.neg h s)) (s : Shape) : P s := by
  have hsplit : ∀ s : Shape, (s.deactivated = false → P s) → P s := fun s hs =>
    (Bool.eq_false_or_eq_true s.deactivated).elim (deactivated s) hs
  induction s using tree_induction with
  | constraint h c => exact hsplit _ (constraint h c)
  | conj h ms ih => exact hsplit _ fun hd => conj h ms hd ih
  | disj h bs ih => exact hsplit _ fun hd => disj h bs hd ih
  | neg h s ih => exact hsplit _ fun hd => neg h s hd ih

mutual

/-- No active conjunction lacks members, and no active disjunction branches or members in one. -/
def wellFormed : Shape → Bool
  | constraint .. => true
  | conj h ms => h.deactivated || (!ms.isEmpty && allWellFormed ms)
  | disj h bs => h.deactivated || (!bs.isEmpty && branchesWellFormed bs)
  | neg h inner => h.deactivated || inner.wellFormed

/-- Are all of the shapes well-formed? -/
def allWellFormed : List Shape → Bool
  | [] => true
  | s :: rest => s.wellFormed && allWellFormed rest

/-- Has every branch a member, and are all of them well-formed? -/
def branchesWellFormed : List (List Shape) → Bool
  | [] => true
  | b :: rest => !b.isEmpty && allWellFormed b && branchesWellFormed rest

end

theorem allWellFormed_eq : ∀ ms : List Shape, allWellFormed ms = ms.all wellFormed
  | [] => rfl
  | m :: ms => by rw [allWellFormed, allWellFormed_eq ms, List.all_cons]

theorem branchesWellFormed_eq : ∀ bs : List (List Shape),
    branchesWellFormed bs = bs.all fun b => !b.isEmpty && b.all wellFormed
  | [] => rfl
  | b :: bs => by
    rw [branchesWellFormed, branchesWellFormed_eq bs, List.all_cons, allWellFormed_eq]

/-- The members of a conjunction are well-formed one by one. -/
theorem allWellFormed_iff {ms : List Shape} :
    allWellFormed ms = true ↔ ∀ m ∈ ms, m.wellFormed = true := by
  rw [allWellFormed_eq, List.all_eq_true]

/-- So are the members of branches, none of which is empty. -/
theorem branchesWellFormed_iff {bs : List (List Shape)} :
    branchesWellFormed bs = true ↔ ∀ b ∈ bs, b ≠ [] ∧ ∀ m ∈ b, m.wellFormed = true := by
  rw [branchesWellFormed_eq, List.all_eq_true]
  refine forall₂_congr fun b _ => ?_
  rw [Bool.and_eq_true, List.all_eq_true, Bool.not_eq_true', List.isEmpty_eq_false_iff]

/-- An active conjunction is well-formed if it has members and these are. -/
theorem wellFormed_conj_iff {h : ShapeHead} {ms : List Shape} (hd : h.deactivated = false) :
    (conj h ms).wellFormed = true ↔ ms ≠ [] ∧ ∀ m ∈ ms, m.wellFormed = true := by
  rw [wellFormed, hd, Bool.false_or, Bool.and_eq_true, allWellFormed_iff, Bool.not_eq_true',
    List.isEmpty_eq_false_iff]

/-- An active disjunction is well-formed if it has branches, each with members, and these are. -/
theorem wellFormed_disj_iff {h : ShapeHead} {bs : List (List Shape)} (hd : h.deactivated = false) :
    (disj h bs).wellFormed = true ↔
      bs ≠ [] ∧ ∀ b ∈ bs, b ≠ [] ∧ ∀ m ∈ b, m.wellFormed = true := by
  rw [wellFormed, hd, Bool.false_or, Bool.and_eq_true, branchesWellFormed_iff, Bool.not_eq_true',
    List.isEmpty_eq_false_iff]

/-- An active negation is well-formed if what it negates is. -/
theorem wellFormed_neg_iff {h : ShapeHead} {inner : Shape} (hd : h.deactivated = false) :
    (neg h inner).wellFormed = true ↔ inner.wellFormed = true := by
  rw [wellFormed, hd, Bool.false_or]

/-- What is switched off is well-formed, whatever it lacks. -/
theorem wellFormed_of_deactivated {s : Shape} (hd : s.deactivated = true) :
    s.wellFormed = true := by
  have hor : ∀ {h : ShapeHead} (b : Bool), h.deactivated = true → (h.deactivated || b) = true := by
    intro h b hd
    rw [hd, Bool.true_or]
  cases s with
  | constraint => rfl
  | conj h ms => exact hor _ hd
  | disj h bs => exact hor _ hd
  | neg h inner => exact hor _ hd

theorem wellFormed_conj {h : ShapeHead} {ms : List Shape} (hw : (conj h ms).wellFormed = true)
    (hd : h.deactivated = false) : ms ≠ [] ∧ ∀ m ∈ ms, m.wellFormed = true :=
  (wellFormed_conj_iff hd).1 hw

theorem wellFormed_disj {h : ShapeHead} {bs : List (List Shape)}
    (hw : (disj h bs).wellFormed = true) (hd : h.deactivated = false) :
    bs ≠ [] ∧ ∀ b ∈ bs, b ≠ [] ∧ ∀ m ∈ b, m.wellFormed = true :=
  (wellFormed_disj_iff hd).1 hw

theorem wellFormed_neg {h : ShapeHead} {inner : Shape} (hw : (neg h inner).wellFormed = true)
    (hd : h.deactivated = false) : inner.wellFormed = true :=
  (wellFormed_neg_iff hd).1 hw

/-- Where the first path is inherited, the shape has this constraint at a leaf where the second path
holds, and nothing is switched off on the way there. -/
inductive HasLeaf : Shape → Option Path → Option Path → Constraint → Prop where
  | constraint {h : ShapeHead} {path : Option Path} {c : Constraint}
      (hd : h.deactivated = false) : HasLeaf (.constraint h c) path (h.path.or path) c
  | conj {h : ShapeHead} {ms : List Shape} {m : Shape} {path p : Option Path} {c : Constraint}
      (hd : h.deactivated = false) (hm : m ∈ ms) (hl : HasLeaf m (h.path.or path) p c) :
      HasLeaf (.conj h ms) path p c
  | disj {h : ShapeHead} {bs : List (List Shape)} {b : List Shape} {m : Shape}
      {path p : Option Path} {c : Constraint} (hd : h.deactivated = false) (hb : b ∈ bs)
      (hm : m ∈ b) (hl : HasLeaf m (h.path.or path) p c) : HasLeaf (.disj h bs) path p c
  | neg {h : ShapeHead} {inner : Shape} {path p : Option Path} {c : Constraint}
      (hd : h.deactivated = false) (hl : HasLeaf inner (h.path.or path) p c) :
      HasLeaf (.neg h inner) path p c

/-- Below a shape that is switched off there are no leaves. -/
theorem HasLeaf.active {s : Shape} {path p : Option Path} {c : Constraint}
    (h : s.HasLeaf path p c) : s.deactivated = false := by
  cases h <;> assumption

end Shape

end GraphShapes
