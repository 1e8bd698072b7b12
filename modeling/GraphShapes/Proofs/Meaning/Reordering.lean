import GraphShapes.Proofs.Meaning.Changes
import GraphShapes.Proofs.Meaning.Rewriting
import Mathlib.Data.List.Perm.Basic
import Mathlib.Logic.Relation

/-!
# Putting members in another order

`Shape.Reordered` relates two shapes that differ in the order of members only: members of a
conjunction, branches of a disjunction and members of a branch may be permuted, in any place of the
tree and any number of times.

What is combined is a set, in a layout that every member has a say in, so a union or an intersection
of tables does not depend on their order (`Table.unite_perm`, `Table.disjoin_shuffled`). A pass
combines its members in the same ways, looks for candidates in every branch and asks its delta about
every member (`View.conjoin_perm`, `View.disjoin_shuffled`). One step up the tree, shapes that
cannot be told apart make up shapes that cannot be told apart (`Shape.Interchangeable`), and so
neither can shapes in another order (`Shape.Reordered.interchangeable`).
-/

namespace GraphShapes

open Table (unite intersect)

/-- Lists that differ in the order of their items, or in the order within one of them. -/
inductive Shuffled {α : Type} : List (List α) → List (List α) → Prop where
  | items {bs bs' : List (List α)} (h : bs.Perm bs') : Shuffled bs bs'
  | within (above below : List (List α)) {b b' : List α} (h : b.Perm b') :
    Shuffled (above ++ b :: below) (above ++ b' :: below)

namespace Shuffled

variable {α β : Type} {bs bs' : List (List α)}

/-- Branches that were shuffled can be shuffled back. -/
theorem symm (h : Shuffled bs bs') : Shuffled bs' bs := by
  cases h with
  | items h => exact .items h.symm
  | within above below h => exact .within above below h.symm

/-- A function of items in which their order does not matter yields the same results. -/
theorem map_perm (h : Shuffled bs bs') {f : List α → β} (hf : ∀ {b b'}, b.Perm b' → f b = f b') :
    (bs.map f).Perm (bs'.map f) := by
  cases h with
  | items h => exact h.map f
  | within above below h =>
    rw [List.map_append, List.map_append, List.map_cons, List.map_cons, hf h]

/-- What is made of every branch, whatever its order, is permuted, also where some branches drop
out. -/
theorem filterMap_perm (h : Shuffled bs bs') {f : List α → Option β}
    (hf : ∀ {b b'}, b.Perm b' → f b = f b') : (bs.filterMap f).Perm (bs'.filterMap f) := by
  have hmap := (h.map_perm hf).filterMap id
  rw [List.filterMap_map, List.filterMap_map] at hmap
  exact hmap

/-- The items are shuffled in the same way when each element of them is replaced. -/
theorem map_map (h : Shuffled bs bs') (f : α → β) :
    Shuffled (bs.map fun b => b.map f) (bs'.map fun b => b.map f) := by
  cases h with
  | items h => exact .items (h.map _)
  | within above below h =>
    rw [List.map_append, List.map_append, List.map_cons, List.map_cons]
    exact .within _ _ (h.map f)

/-- Shuffling keeps that some member of some branch has a property. -/
theorem any_any (h : Shuffled bs bs') (p : α → Bool) :
    (bs.any fun b => b.any p) = bs'.any fun b => b.any p := by
  have hperm := (h.map_perm (f := fun b => b.any p) fun hb => hb.any_eq).any_eq (f := id)
  rw [List.any_map, List.any_map] at hperm
  exact hperm

/-- It keeps that all branches have a property that does not depend on their order. -/
theorem all_eq (h : Shuffled bs bs') {p : List α → Bool} (hp : ∀ {b b'}, b.Perm b' → p b = p b') :
    bs.all p = bs'.all p := by
  have hperm := (h.map_perm hp).all_eq (f := id)
  rw [List.all_map, List.all_map] at hperm
  exact hperm

/-- It makes branches neither appear nor vanish. -/
theorem isEmpty_eq (h : Shuffled bs bs') : bs.isEmpty = bs'.isEmpty := by
  have hlen := (h.map_perm (f := fun _ => ()) fun _ => rfl).isEmpty_eq
  rw [List.isEmpty_map, List.isEmpty_map] at hlen
  exact hlen

/-- A single element can be put in no other order. -/
theorem eq_single {a : α} (h : Shuffled bs bs') (hs : bs = [[a]]) : bs' = [[a]] := by
  cases h with
  | items h => exact List.perm_singleton.1 (hs ▸ h.symm)
  | @within above below b b' h =>
    obtain ⟨habove, hcons⟩ | ⟨-, hnil⟩ := List.append_eq_singleton_iff.1 hs
    · obtain ⟨hb, hbelow⟩ := List.cons.inj hcons
      have hb' : b' = [a] := List.perm_singleton.1 (hb ▸ h.symm)
      rw [habove, hbelow, hb']
      rfl
    · exact absurd hnil (List.cons_ne_nil b below)

/-- A single branch with a single member cannot be shuffled. -/
theorem eq_single_iff {a : α} (h : Shuffled bs bs') : bs = [[a]] ↔ bs' = [[a]] :=
  ⟨h.eq_single, h.symm.eq_single⟩

end Shuffled

/-! ## Tables -/

namespace Table

variable {tables tables' : List Table} {parts parts' : List Part}
  {branches branches' : List (List Part)}

/-- Every table has a say in the common layout, wherever it stands. -/
theorem commonLayout_perm (h : tables.Perm tables') (ownPath : Bool) :
    commonLayout tables ownPath = commonLayout tables' ownPath := by
  rw [commonLayout, commonLayout, h.all_eq]

/-- A union does not depend on the order of its tables. -/
theorem union_perm (h : tables.Perm tables') (ownPath : Bool) :
    union ownPath tables = union ownPath tables' := by
  cases tables with
  | nil => rw [List.nil_perm.1 h]
  | cons first rest =>
    cases tables' with
    | nil => exact absurd h.symm (List.not_perm_nil_cons first rest)
    | cons first' rest' =>
      rw [union, union, commonLayout_perm h]
      refine congrArg some (Table.ext rfl (Finset.ext fun l => ?_))
      rw [mem_unionAs, mem_unionAs]
      exact exists_congr fun t => and_congr_left fun _ => h.mem_iff

/-- Nor does an intersection, although one of its tables comes first. -/
theorem intersection_perm (h : tables.Perm tables') (ownPath : Bool) :
    intersection ownPath tables = intersection ownPath tables' := by
  cases tables with
  | nil => rw [List.nil_perm.1 h]
  | cons first rest =>
    cases tables' with
    | nil => exact absurd h.symm (List.not_perm_nil_cons first rest)
    | cons first' rest' =>
      rw [intersection, intersection, commonLayout_perm h]
      refine congrArg some (Table.ext rfl (Finset.ext fun l => ?_))
      rw [mem_intersectionAs, mem_intersectionAs]
      exact forall_congr' fun t => imp_congr_left h.mem_iff

/-- The order of the members of a conjunction does not matter. -/
theorem unite_perm (h : parts.Perm parts') : unite parts = unite parts' := by
  have hown : ownPathOf parts = ownPathOf parts' := h.any_eq
  rw [unite, unite, hown]
  exact union_perm (h.filterMap _) _

/-- Nor does the intersection of branches. -/
theorem intersect_shuffled (h : Shuffled branches branches') :
    intersect branches = intersect branches' := by
  rw [intersect, intersect, h.any_any]
  exact intersection_perm (h.filterMap_perm unite_perm) _

/-- The order of branches and of their members does not matter. -/
theorem disjoin_shuffled (h : Shuffled branches branches') :
    disjoin branches = disjoin branches' := by
  rcases single_or branches with ⟨p, hp⟩ | hs
  · rw [hp, h.eq_single hp]
  · have hs' : ∀ p, branches' ≠ [[p]] := fun p hp => hs p (h.eq_single_iff.2 hp)
    rw [disjoin_eq_intersect hs, disjoin_eq_intersect hs', intersect_shuffled h]

/-- Nor do the targets that tables are about. -/
theorem targetsOf_perm (h : tables.Perm tables') : targetsOf tables = targetsOf tables' := by
  refine Finset.ext fun t => ?_
  rw [mem_targetsOf, mem_targetsOf]
  exact exists_congr fun x => and_congr_left fun _ => h.mem_iff

end Table

/-! ## What a pass combines -/

/-- A piece is what a conjunction or disjunction knows of it. -/
theorem Piece.ext_of {p q : Piece} (hfound : p.found = q.found)
    (hamong : ∀ G X, p.among G X = q.among G X) (hown : p.ownPath = q.ownPath)
    (htouched : p.touched = q.touched) : p = q := by
  have hfun : p.among = q.among := funext fun G => funext fun X => hamong G X
  cases p
  cases q
  simp only at hfound hfun hown htouched
  subst hfound hfun hown htouched
  rfl

namespace View

variable {view : View} {pieces pieces' : List Piece} {branches branches' : List (List Piece)}

/-- A pass finds the same of a conjunction in any order of its members. -/
theorem conjoin_perm (h : pieces.Perm pieces') : conjoin pieces = conjoin pieces' :=
  Table.unite_perm (h.map _)

/-- It finds the same candidates, in another order. -/
theorem candidates_shuffled (h : Shuffled branches branches') :
    (Piece.candidates branches).Perm (Piece.candidates branches') :=
  h.filterMap_perm fun hb => conjoin_perm hb

/-- Judged for given targets, the branches are shuffled alike. -/
theorem branchesAmong_shuffled (h : Shuffled branches branches') (G : Store) (X : Finset Term) :
    Shuffled (Piece.branchesAmong G X branches) (Piece.branchesAmong G X branches') :=
  h.map_map _

/-- It finds the same of an intersection of branches. -/
theorem intersectBranches_shuffled (h : Shuffled branches branches') :
    view.intersectBranches branches = view.intersectBranches branches' := by
  have hcandidates := candidates_shuffled h
  have hnone : Piece.candidates branches = [] ↔ Piece.candidates branches' = [] := by
    rw [← List.perm_nil, ← List.perm_nil]
    exact ⟨hcandidates.symm.trans, hcandidates.trans⟩
  have hamong := Table.intersect_shuffled (branchesAmong_shuffled h view.graph
    (Table.targetsOf (Piece.candidates branches)))
  rw [intersectBranches, intersectBranches, if_congr hnone rfl rfl, hamong,
    Table.targetsOf_perm hcandidates, Table.intersect_shuffled (h.map_map Piece.part)]

/-- The order of branches and of their members does not matter to a pass. -/
theorem disjoin_shuffled (h : Shuffled branches branches') :
    view.disjoin branches = view.disjoin branches' := by
  rcases Table.single_or branches with ⟨p, hp⟩ | hs
  · rw [hp, h.eq_single hp]
  · have hs' : ∀ p, branches' ≠ [[p]] := fun p hp => hs p (h.eq_single_iff.2 hp)
    rw [disjoin_eq_intersectBranches hs, disjoin_eq_intersectBranches hs',
      intersectBranches_shuffled h]

/-- Members that are permuted, each as a branch of its own. -/
theorem singletons_shuffled {α : Type} {as as' : List α} (h : as.Perm as') :
    Shuffled (as.map fun a => [a]) (as'.map fun a => [a]) :=
  .items (h.map _)

/-- The negation of a branch is the same piece in any order of its members. -/
theorem negatedBranch_perm (h : pieces.Perm pieces') :
    view.negatedBranch pieces = view.negatedBranch pieces' := by
  refine Piece.ext_of (disjoin_shuffled (singletons_shuffled h)) (fun G X => ?_) h.any_eq h.any_eq
  exact Table.disjoin_shuffled (singletons_shuffled (h.map _))

end View

namespace Shape

/-! ## Shapes that cannot be told apart -/

/-- Whatever encloses the shapes, a pass cannot tell them apart. -/
structure Interchangeable (s s' : Shape) : Prop where
  ownPath : ∀ path, s.hasOwnPath path = s'.hasOwnPath path
  touches : ∀ bears path, s.touches bears path = s'.touches bears path
  changes : ∀ view path negate, s.changes view path negate = s'.changes view path negate

namespace Interchangeable

variable {s s' s'' m m' : Shape} {h : ShapeHead}

theorem refl (s : Shape) : Interchangeable s s := ⟨fun _ => rfl, fun _ _ => rfl, fun _ _ _ => rfl⟩

/-- Shapes that cannot be told apart from a third cannot be told apart. -/
theorem trans (h : Interchangeable s s') (h' : Interchangeable s' s'') :
    Interchangeable s s'' where
  ownPath path := (h.ownPath path).trans (h'.ownPath path)
  touches bears path := (h.touches bears path).trans (h'.touches bears path)
  changes view path negate := (h.changes view path negate).trans (h'.changes view path negate)

/-- They report the same about given targets, since some view sees just these. -/
theorem rows (h : Interchangeable s s') (G : Store) (X : Finset Term) (path : Option Path)
    (negate : Bool) : s.rows G X path negate = s'.rows G X path negate := by
  rw [← changes_everywhere, ← changes_everywhere, h.changes]

/-- As members they are the same. -/
theorem piece (h : Interchangeable s s') (view : View) (path : Option Path) (negate : Bool) :
    s.piece view path negate = s'.piece view path negate :=
  Piece.ext_of (h.changes view path negate) (fun G X => h.rows G X path negate) (h.ownPath path)
    (h.touches view.bears path)

/-! ### One step up the tree -/

/-- Negations of shapes that cannot be told apart. -/
theorem neg (hm : Interchangeable m m') (h : ShapeHead) :
    Interchangeable (.neg h m) (.neg h m') where
  ownPath _ := rfl
  touches bears path := by rw [Shape.touches, Shape.touches, hm.touches]
  changes view path negate := by rw [Shape.changes, Shape.changes, hm.changes]

/-- Conjunctions are interchangeable if a pass combines their members to the same. -/
theorem conj_of {ms ms' : List Shape} (htouches : ∀ bears path,
      (ms.any fun m => m.touches bears path) = ms'.any fun m => m.touches bears path)
    (hpieces : ∀ view path negate,
      (ms.map (Shape.piece view path negate)).Perm (ms'.map (Shape.piece view path negate)))
    (h : ShapeHead) : Interchangeable (.conj h ms) (.conj h ms') where
  ownPath _ := rfl
  touches bears path := by
    rw [Shape.touches, Shape.touches, anyTouches_eq, anyTouches_eq, htouches]
  changes view path negate := by
    have hconjoin := View.conjoin_perm (hpieces view (h.path.or path) false)
    have hdisjoin : view.disjoin _ = view.disjoin _ :=
      View.disjoin_shuffled (View.singletons_shuffled (hpieces view (h.path.or path) true))
    simp only [Shape.changes, pieces_eq_map, hconjoin, hdisjoin]

/-- Disjunctions are interchangeable if their branches are the same for a pass but for their
order. -/
theorem disj_of {bs bs' : List (List Shape)} (htouches : ∀ bears path,
      (bs.any fun b => b.any fun m => m.touches bears path) =
        bs'.any fun b => b.any fun m => m.touches bears path)
    (hpieces : ∀ view path negate, Shuffled (bs.map fun b => b.map (Shape.piece view path negate))
      (bs'.map fun b => b.map (Shape.piece view path negate)))
    (h : ShapeHead) : Interchangeable (.disj h bs) (.disj h bs') where
  ownPath _ := rfl
  touches bears path := by
    rw [Shape.touches, Shape.touches, anyBranchTouches_eq, anyBranchTouches_eq, htouches]
  changes view path negate := by
    have hdisjoin : view.disjoin _ = view.disjoin _ :=
      View.disjoin_shuffled (hpieces view (h.path.or path) false)
    have hnegated := (hpieces view (h.path.or path) true).map_perm (f := view.negatedBranch)
      View.negatedBranch_perm
    have hconjoin := View.conjoin_perm hnegated
    simp only [Shape.changes, branchPieces_eq_map, hdisjoin, hconjoin]

/-- Lists that differ in one place are the same for a pass if they are there. -/
theorem map_piece (hm : Interchangeable m m') (before after : List Shape) (view : View)
    (path : Option Path) (negate : Bool) :
    (before ++ m :: after).map (Shape.piece view path negate) =
      (before ++ m' :: after).map (Shape.piece view path negate) := by
  simp only [List.map_append, List.map_cons, hm.piece]

/-- A delta bears on members alike if one of them is exchanged. -/
theorem any_touches (hm : Interchangeable m m') (before after : List Shape)
    (bears : Option Path → Bool) (path : Option Path) :
    ((before ++ m :: after).any fun s => s.touches bears path) =
      (before ++ m' :: after).any fun s => s.touches bears path := by
  simp only [List.any_append, List.any_cons, hm.touches]

/-- One member of a conjunction may be exchanged. -/
theorem conj (hm : Interchangeable m m') (h : ShapeHead) (before after : List Shape) :
    Interchangeable (.conj h (before ++ m :: after)) (.conj h (before ++ m' :: after)) :=
  conj_of (hm.any_touches before after)
    (fun view path negate => .of_eq (hm.map_piece before after view path negate)) h

/-- One member of one branch may be exchanged. -/
theorem disj (hm : Interchangeable m m') (h : ShapeHead) (above below : List (List Shape))
    (before after : List Shape) :
    Interchangeable (.disj h (above ++ (before ++ m :: after) :: below))
      (.disj h (above ++ (before ++ m' :: after) :: below)) := by
  refine disj_of (fun bears path => ?_) (fun view path negate => .items (.of_eq ?_)) h
  · rw [List.any_append, List.any_append, List.any_cons, List.any_cons,
      hm.any_touches before after]
  · rw [List.map_append, List.map_append, List.map_cons, List.map_cons, hm.map_piece]

end Interchangeable

/-! ## Another order -/

/-- In one place, what is combined stands in another order. -/
inductive Permuted : Shape → Shape → Prop where
  /-- The members of a conjunction. -/
  | conj (h : ShapeHead) {ms ms' : List Shape} (hms : ms.Perm ms') :
    Permuted (.conj h ms) (.conj h ms')
  /-- The branches of a disjunction, or the members of one of them. -/
  | disj (h : ShapeHead) {bs bs' : List (List Shape)} (hbs : Shuffled bs bs') :
    Permuted (.disj h bs) (.disj h bs')

/-- The second shape comes from the first by permuting, once after the other, the members of
conjunctions, the branches of disjunctions and the members of branches, anywhere in the tree. -/
def Reordered : Shape → Shape → Prop :=
  Relation.ReflTransGen (Within (fun _ _ => Permuted) none false)

variable {s s' : Shape}

/-- Permuting members at the root of a shape cannot be noticed. -/
theorem Permuted.interchangeable (h : Permuted s s') : Interchangeable s s' := by
  cases h with
  | conj h hms => exact .conj_of (fun _ _ => hms.any_eq) (fun _ _ _ => hms.map _) h
  | disj h hbs => exact .disj_of (fun _ _ => hbs.any_any _) (fun _ _ _ => hbs.map_map _) h

/-- Permuting members at the root keeps a shape well-formed. -/
theorem Permuted.wellFormed (h : Permuted s s') (hw : s.wellFormed = true) :
    s'.wellFormed = true := by
  cases h with
  | conj h hms =>
    rw [Shape.wellFormed, allWellFormed_eq] at hw ⊢
    rwa [← hms.isEmpty_eq, ← hms.all_eq]
  | disj h hbs =>
    have hall := hbs.all_eq (p := fun b => !b.isEmpty && b.all Shape.wellFormed) fun hb => by
      rw [hb.isEmpty_eq, hb.all_eq]
    rw [Shape.wellFormed, branchesWellFormed_eq] at hw ⊢
    rwa [← hbs.isEmpty_eq, ← hall]

/-- What cannot be told apart in one place cannot be told apart as a whole. -/
theorem Within.interchangeable {R : Option Path → Bool → Shape → Shape → Prop}
    (hR : ∀ {path negate s s'}, R path negate s s' → Interchangeable s s') {path : Option Path}
    {negate : Bool} (h : Within R path negate s s') : Interchangeable s s' := by
  induction h with
  | here h => exact hR h
  | conj h before after _ ih => exact ih.conj h before after
  | disj h above below before after _ ih => exact ih.disj h above below before after
  | neg h _ ih => exact ih.neg h

/-- No pass can tell shapes apart that differ in the order of what they combine. -/
theorem Reordered.interchangeable (h : Reordered s s') : Interchangeable s s' := by
  induction h with
  | refl => exact .refl _
  | tail _ h ih => exact ih.trans (h.interchangeable Permuted.interchangeable)

/-- So does putting members in another order anywhere. -/
theorem Reordered.wellFormed (h : Reordered s s') (hw : s.wellFormed = true) :
    s'.wellFormed = true := by
  induction h with
  | refl => exact hw
  | tail _ h ih => exact h.wellFormed Permuted.wellFormed ih

end Shape

end GraphShapes
