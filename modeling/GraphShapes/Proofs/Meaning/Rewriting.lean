import GraphShapes.Proofs.Meaning.Refines
import GraphShapes.Proofs.Meaning.Violates

/-!
# Rewriting inside a shape

`Shape.Within R` relates two shapes that differ in one place, where `R` relates what stands there.
`R` may depend on the path that holds at the place, and on the polarity in which it is planned.

What holds of the place carries over to the whole. Shapes that are `Alike` there are alike as a
whole: they are violated by the same targets (`Within.alike`). And if one of them `Refines` the
other there, so that it reports no more and sets no path more, it does so as a whole
(`Within.refines`).
-/

namespace GraphShapes

namespace Shape

/-- The shapes differ in one place, and there the relation holds of the path, the polarity, and what
the two shapes have in this place. -/
inductive Within (R : Option Path → Bool → Shape → Shape → Prop) :
    Option Path → Bool → Shape → Shape → Prop where
  | here {path : Option Path} {negate : Bool} {s s' : Shape} (h : R path negate s s') :
    Within R path negate s s'
  | conj {path : Option Path} {negate : Bool} (h : ShapeHead) (before after : List Shape)
    {m m' : Shape} (hm : Within R (h.path.or path) negate m m') :
    Within R path negate (.conj h (before ++ m :: after)) (.conj h (before ++ m' :: after))
  | disj {path : Option Path} {negate : Bool} (h : ShapeHead) (above below : List (List Shape))
    (before after : List Shape) {m m' : Shape} (hm : Within R (h.path.or path) negate m m') :
    Within R path negate (.disj h (above ++ (before ++ m :: after) :: below))
      (.disj h (above ++ (before ++ m' :: after) :: below))
  | neg {path : Option Path} {negate : Bool} (h : ShapeHead) {m m' : Shape}
    (hm : Within R (h.path.or path) (!negate) m m') :
    Within R path negate (.neg h m) (.neg h m')

section Within

variable {R R' : Option Path → Bool → Shape → Shape → Prop} {path : Option Path} {negate : Bool}
  {s s' : Shape}

/-- What stands at the place may be related more loosely. -/
theorem Within.mono (hR : ∀ {path negate s s'}, R path negate s s' → R' path negate s s')
    (h : Within R path negate s s') : Within R' path negate s s' := by
  induction h with
  | here h => exact .here (hR h)
  | conj h before after _ ih => exact .conj h before after ih
  | disj h above below before after _ ih => exact .disj h above below before after ih
  | neg h _ ih => exact .neg h ih

/-- A change in one place can be undone. -/
theorem Within.symm (h : Within R path negate s s') :
    Within (fun path negate s s' => R path negate s' s) path negate s' s := by
  induction h with
  | here h => exact .here h
  | conj h before after _ ih => exact .conj h before after ih
  | disj h above below before after _ ih => exact .disj h above below before after ih
  | neg h _ ih => exact .neg h ih

end Within

/-! ## Well-formed shapes -/

/-- A shape is well-formed if it was so before one place was changed, and that place still is. -/
theorem Within.wellFormed {R : Option Path → Bool → Shape → Shape → Prop}
    (hR : ∀ {path negate s s'}, R path negate s s' → s.wellFormed = true → s'.wellFormed = true)
    {path : Option Path} {negate : Bool} {s s' : Shape} (h : Within R path negate s s')
    (hw : s.wellFormed = true) : s'.wellFormed = true := by
  induction h with
  | here h => exact hR h hw
  | conj h before after _ ih =>
    have hne : ∀ s : Shape, (before ++ s :: after).isEmpty = false := by simp
    simp only [Shape.wellFormed, allWellFormed_eq, hne, List.all_append, List.all_cons,
      Bool.or_eq_true, Bool.and_eq_true] at hw ⊢
    refine hw.imp_right fun hw => ?_
    obtain ⟨hempty, hbefore, hm, hafter⟩ := hw
    exact ⟨hempty, hbefore, ih hm, hafter⟩
  | disj h above below before after _ ih =>
    have hne : ∀ s : Shape, (before ++ s :: after).isEmpty = false := by simp
    have hne' : ∀ b : List Shape, (above ++ b :: below).isEmpty = false := by simp
    simp only [Shape.wellFormed, branchesWellFormed_eq, hne, hne', List.all_append, List.all_cons,
      Bool.or_eq_true, Bool.and_eq_true] at hw ⊢
    refine hw.imp_right fun hw => ?_
    obtain ⟨hempty, habove, ⟨hbranch, hbefore, hm, hafter⟩, hbelow⟩ := hw
    exact ⟨hempty, habove, ⟨hbranch, hbefore, ih hm, hafter⟩, hbelow⟩
  | neg h _ ih =>
    rw [Shape.wellFormed, Bool.or_eq_true] at hw ⊢
    exact hw.imp_right ih

/-! ## The same logic -/

/-- Where this path holds, the two shapes are the same by the logic of shapes. -/
structure Alike (path : Option Path) (s s' : Shape) : Prop where
  isLive : s'.isLive = s.isLive
  violates : ∀ G t, s'.violates G t path = s.violates G t path

section Alike

variable {path : Option Path} {h : ShapeHead} {s s' m m' : Shape}

theorem Alike.symm (h : Alike path s s') : Alike path s' s :=
  ⟨h.isLive.symm, fun G t => (h.violates G t).symm⟩

/-- A member of a conjunction may be exchanged for one that is alike. -/
theorem alike_conj (before after : List Shape) (hm : Alike (h.path.or path) m m') :
    Alike path (conj h (before ++ m :: after)) (conj h (before ++ m' :: after)) where
  isLive := by
    simp [isLive, anyLive_eq, hm.isLive]
  violates G t := by
    simp [violates, violatesAny_eq, hm.violates]

/-- So may a member of a branch. -/
theorem alike_disj (above below : List (List Shape)) (before after : List Shape)
    (hm : Alike (h.path.or path) m m') :
    Alike path (disj h (above ++ (before ++ m :: after) :: below))
      (disj h (above ++ (before ++ m' :: after) :: below)) where
  isLive := by
    simp [isLive, anyBranchLive_eq, hm.isLive]
  violates G t := by
    simp [violates, violatesEvery_eq, anyBranchLive_eq, hm.isLive, hm.violates]

/-- So may what is negated. -/
theorem alike_neg (hm : Alike (h.path.or path) m m') : Alike path (neg h m) (neg h m') where
  isLive := by rw [isLive, isLive, hm.isLive]
  violates G t := by rw [violates, violates, hm.isLive, hm.violates]

end Alike

/-- Shapes that are alike in one place are alike as a whole. -/
theorem Within.alike {R : Option Path → Bool → Shape → Shape → Prop}
    (hR : ∀ {path negate s s'}, R path negate s s' → Alike path s s') {path : Option Path}
    {negate : Bool} {s s' : Shape} (h : Within R path negate s s') : Alike path s s' := by
  induction h with
  | here h => exact hR h
  | conj h before after _ ih => exact alike_conj before after ih
  | disj h above below before after _ ih => exact alike_disj above below before after ih
  | neg h _ ih => exact alike_neg ih

/-! ## Refinement -/

/-- Planned in this polarity where this path holds, the first shape refines the second as a part of
any conjunction or disjunction, about every graph. -/
def Refines (path : Option Path) (negate : Bool) (s s' : Shape) : Prop :=
  ∀ G T, (part G T path negate s).Refines (part G T path negate s')

/-- Shapes with the same head refine each other if their tables do, unless they are switched off. -/
theorem refines_of_rows {path : Option Path} {negate : Bool} {h : ShapeHead} {s s' : Shape}
    (hs : s.head = h) (hs' : s'.head = h) (hrows : h.deactivated = false → ∀ G T,
      Table.OptRefines (s.rows G T path negate) (s'.rows G T path negate)) :
    Refines path negate s s' := by
  subst hs
  refine fun G T => ⟨?_, fun hown => ?_⟩
  · show Table.OptRefines (s.rows G T path negate) (s'.rows G T path negate)
    cases hd : s.head.deactivated with
    | true =>
      have hd' : s'.head.deactivated = true := hs' ▸ hd
      rw [rows_of_deactivated hd, rows_of_deactivated hd']
      exact .none
    | false => exact hrows hd G T
  · have heq : s.hasOwnPath path = s'.hasOwnPath path := by
      rw [hasOwnPath, hasOwnPath, path?, path?, hs']
    exact heq.symm.trans hown

theorem Refines.refl (path : Option Path) (negate : Bool) (s : Shape) : Refines path negate s s :=
  fun _ _ => .refl _

section Refines

variable {path : Option Path} {negate : Bool} {h : ShapeHead} {ms ms' : List Shape}
  {bs bs' : List (List Shape)}

/-- Members that refine others add parts that refine theirs. -/
theorem parts_refine (hms : List.Forall₂ (Refines path negate) ms ms') (G : Store)
    (T : Finset Term) : List.Forall₂ Table.Part.Refines (ms.map (part G T path negate))
      (ms'.map (part G T path negate)) :=
  List.rel_map (fun _ _ hm => hm G T) hms

/-- So do members of branches. -/
theorem branchParts_refine (hbs : List.Forall₂ (List.Forall₂ (Refines path negate)) bs bs')
    (G : Store) (T : Finset Term) : List.Forall₂ (List.Forall₂ Table.Part.Refines)
      (bs.map fun b => b.map (part G T path negate))
      (bs'.map fun b => b.map (part G T path negate)) :=
  List.forall₂_map_left_iff.2 (List.forall₂_map_right_iff.2
    (hbs.imp fun _ _ hb => parts_refine hb G T))

/-- A conjunction of shapes that refine others, for either polarity. -/
theorem refines_conj (hms : List.Forall₂ (Refines (h.path.or path) negate) ms ms') :
    Refines path negate (conj h ms) (conj h ms') := by
  refine refines_of_rows (h := h) rfl rfl fun hd G T => ?_
  cases negate with
  | false =>
    rw [rows_conj hd, rows_conj hd]
    exact Table.unite_refines (parts_refine hms G T)
  | true =>
    rw [rows_neg_conj hd, rows_neg_conj hd]
    exact Table.disjoin_singletons_refines (parts_refine hms G T)

/-- A disjunction of shapes that refine others, for either polarity. -/
theorem refines_disj
    (hbs : List.Forall₂ (List.Forall₂ (Refines (h.path.or path) negate)) bs bs') :
    Refines path negate (disj h bs) (disj h bs') := by
  refine refines_of_rows (h := h) rfl rfl fun hd G T => ?_
  cases negate with
  | false =>
    rw [rows_disj hd, rows_disj hd]
    exact Table.disjoin_refines (branchParts_refine hbs G T)
  | true =>
    rw [rows_neg_disj hd, rows_neg_disj hd]
    refine Table.unite_refines (List.forall₂_map_left_iff.2 (List.forall₂_map_right_iff.2 ?_))
    exact hbs.imp fun _ _ hb => Table.negatedBranch_refines (parts_refine hb G T)

/-- A negation turns the polarity around. -/
theorem refines_neg {inner inner' : Shape}
    (hinner : Refines (h.path.or path) (!negate) inner inner') :
    Refines path negate (neg h inner) (neg h inner') := by
  refine refines_of_rows (h := h) rfl rfl fun hd G T => ?_
  rw [rows_neg hd, rows_neg hd]
  exact (hinner G T).table

end Refines

/-- Lists that differ in one place are related if they are there. -/
theorem forall₂_replace {α : Type} {R : α → α → Prop} (hrefl : ∀ a, R a a) {a b : α} (h : R a b)
    (before after : List α) : List.Forall₂ R (before ++ a :: after) (before ++ b :: after) :=
  List.rel_append (List.forall₂_same.2 fun x _ => hrefl x)
    (.cons h (List.forall₂_same.2 fun x _ => hrefl x))

/-- What refines another shape in one place refines it as a whole. -/
theorem Within.refines {R : Option Path → Bool → Shape → Shape → Prop}
    (hR : ∀ {path negate s s'}, R path negate s s' → Refines path negate s s')
    {path : Option Path} {negate : Bool} {s s' : Shape} (h : Within R path negate s s') :
    Refines path negate s s' := by
  induction h with
  | here h => exact hR h
  | conj h before after _ ih =>
    exact refines_conj (forall₂_replace (Refines.refl _ _) ih before after)
  | @disj path negate h above below before after _ _ _ ih =>
    have hbranch := forall₂_replace (Refines.refl _ _) ih before after
    have hrefl : ∀ b : List Shape, List.Forall₂ (Refines (h.path.or path) negate) b b :=
      fun b => List.forall₂_same.2 fun m _ => Refines.refl _ _ m
    exact refines_disj (forall₂_replace hrefl hbranch above below)
  | neg h _ ih => exact refines_neg ih

end Shape

end GraphShapes
