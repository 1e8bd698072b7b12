import GraphShapes.Proofs.Meaning.Branches
import GraphShapes.Proofs.Meaning.Rows

/-!
# Tables that say less

A table *refines* another one if it is about no other targets and compares at least as much: where
the other table has all columns, so does the first, and it has no other lines. Tables that refine
each other are the same to everything that is made of them.

Whatever is combined of refined tables is refined (`unite_refines`, `disjoin_refines`,
`negatedBranch_refines`), as long as no part sets a path of its own that set none before. A part
with its own path has its lines cut to the targets, so without that path more is compared, and less
is reported.
-/

namespace GraphShapes

section Related

variable {α β : Type} {R : α → β → Prop} {as : List α} {bs : List β}

/-- An item on the left is related to one on the right. -/
theorem exists_right_of_mem (h : List.Forall₂ R as bs) {a : α} (ha : a ∈ as) :
    ∃ b ∈ bs, R a b := by
  induction h with
  | nil => exact absurd ha List.not_mem_nil
  | cons hab _ ih =>
    rcases List.mem_cons.1 ha with rfl | ha
    · exact ⟨_, List.mem_cons_self .., hab⟩
    · obtain ⟨b, hb, hR⟩ := ih ha
      exact ⟨b, List.mem_cons_of_mem _ hb, hR⟩

/-- An item on the right is related to one on the left. -/
theorem exists_left_of_mem (h : List.Forall₂ R as bs) {b : β} (hb : b ∈ bs) : ∃ a ∈ as, R a b :=
  exists_right_of_mem (List.Forall₂.flip (R := flip R) h) hb

end Related

namespace Table

variable {x y z : Table} {xs ys : List Table} {layout lx ly : Layout}

/-! ## Cutting to the target -/

theorem take_take_one (l : List Term) : (l.take 1).take 1 = l.take 1 := by
  rw [List.take_take, Nat.min_self]

/-- The target of a line, cut to whatever layout, is a line cut to the target. -/
theorem take_mem_cut {l : List Term} (h : l ∈ x.linesAs layout) :
    l.take 1 ∈ x.linesAs .aggregated := by
  cases layout with
  | tripleBased => exact Finset.mem_image_of_mem _ h
  | aggregated =>
    obtain ⟨l', hl', rfl⟩ := Finset.mem_image.1 h
    rw [take_take_one]
    exact Finset.mem_image_of_mem _ hl'

/-- A line cut to the target comes from a line in any layout. -/
theorem exists_take_of_mem_cut {l : List Term} (h : l ∈ x.linesAs .aggregated)
    (layout : Layout) : ∃ l' ∈ x.linesAs layout, l'.take 1 = l := by
  obtain ⟨l', hl', rfl⟩ := Finset.mem_image.1 h
  cases layout with
  | tripleBased => exact ⟨l', hl', rfl⟩
  | aggregated => exact ⟨l'.take 1, h, take_take_one l'⟩

/-- Cutting lines again does nothing. -/
theorem linesAs_linesAs (layout layout' : Layout) (x : Table) :
    linesAs layout ⟨layout', x.linesAs layout⟩ = x.linesAs layout := by
  cases layout with
  | tripleBased => rfl
  | aggregated =>
    show (x.lines.image (List.take 1)).image (List.take 1) = x.lines.image (List.take 1)
    rw [Finset.image_image]
    exact Finset.image_congr fun l _ => take_take_one l

/-! ## Refinement -/

/-- The first table is about no other targets than the second. If the second has all columns, the
first has them too, and no other lines. -/
structure Refines (x y : Table) : Prop where
  targets : x.linesAs .aggregated ⊆ y.linesAs .aggregated
  layout : y.layout = .tripleBased → x.layout = .tripleBased
  lines : y.layout = .tripleBased → x.lines ⊆ y.lines

theorem Refines.refl (x : Table) : x.Refines x :=
  ⟨Finset.Subset.refl _, fun h => h, fun _ => Finset.Subset.refl _⟩

theorem Refines.trans (hxy : x.Refines y) (hyz : y.Refines z) : x.Refines z where
  targets := hxy.targets.trans hyz.targets
  layout hz := hxy.layout (hyz.layout hz)
  lines hz := (hxy.lines (hyz.layout hz)).trans (hyz.lines hz)

/-- There is a table exactly if there is another one, and it refines that. -/
abbrev OptRefines : Option Table → Option Table → Prop := Option.Rel Refines

theorem OptRefines.refl : ∀ table : Option Table, OptRefines table table
  | none => .none
  | some x => .some (.refl x)

theorem OptRefines.trans {a b c : Option Table} (hab : OptRefines a b) (hbc : OptRefines b c) :
    OptRefines a c := by
  cases hab with
  | none => exact hbc
  | some hab =>
    cases hbc with
    | some hbc => exact .some (hab.trans hbc)

/-- Refinement does not make a table appear or vanish. -/
theorem OptRefines.isSome_eq {a b : Option Table} (h : OptRefines a b) : a.isSome = b.isSome := by
  cases h <;> rfl

/-- A table that refines another one reports nothing else. -/
theorem OptRefines.reports {a b : Option Table} (h : OptRefines a b) {t : Term}
    (ht : Reports a t) : Reports b t := by
  obtain ⟨x, rfl, hm⟩ := ht
  cases h with
  | @some x y hxy =>
    have hline : ∃ l ∈ x.linesAs .aggregated, l.head? = some t := exists_mem_linesAs.2 hm
    obtain ⟨l, hl, hlt⟩ := hline
    exact ⟨y, rfl, exists_mem_linesAs.1 ⟨l, hxy.targets hl, hlt⟩⟩

/-- If whole lines are compared of the tables on the right, they are compared on the left. -/
theorem commonLayout_of_refines (h : List.Forall₂ Refines xs ys) {own own' : Bool}
    (hown : own = true → own' = true) (hc : commonLayout ys own' = .tripleBased) :
    commonLayout xs own = .tripleBased := by
  rw [commonLayout_eq_tripleBased_iff] at hc ⊢
  obtain ⟨hno, hall⟩ := hc
  refine ⟨?_, fun x hx => ?_⟩
  · cases own with
    | false => rfl
    | true => exact absurd ((hown rfl).symm.trans hno) Bool.true_eq_false.mp
  · obtain ⟨y, hy, hxy⟩ := exists_right_of_mem h hx
    exact hxy.layout (hall y hy)

/-- The union of refined tables refines the union, if it keeps all columns where that does. -/
theorem refines_unionAs (h : List.Forall₂ Refines xs ys)
    (hl : ly = .tripleBased → lx = .tripleBased)
    (hall : ly = .tripleBased → ∀ y ∈ ys, y.layout = .tripleBased) :
    (unionAs lx xs).Refines (unionAs ly ys) where
  targets := by
    intro l hmem
    obtain ⟨l', hl', rfl⟩ := Finset.mem_image.1 hmem
    obtain ⟨x, hx, hlx⟩ := mem_unionAs.1 hl'
    obtain ⟨y, hy, hxy⟩ := exists_right_of_mem h hx
    obtain ⟨l'', hl'', htake⟩ := exists_take_of_mem_cut (hxy.targets (take_mem_cut hlx)) ly
    exact Finset.mem_image.2 ⟨l'', mem_unionAs.2 ⟨y, hy, hl''⟩, htake⟩
  layout hy := hl hy
  lines hy := by
    obtain rfl : ly = .tripleBased := hy
    obtain rfl := hl rfl
    intro l hmem
    obtain ⟨x, hx, hlx⟩ := mem_unionAs.1 hmem
    obtain ⟨y, hy, hxy⟩ := exists_right_of_mem h hx
    exact mem_unionAs.2 ⟨y, hy, hxy.lines (hall rfl y hy) hlx⟩

/-- The same for intersections. -/
theorem refines_intersectionAs (h : List.Forall₂ Refines (x :: xs) (y :: ys))
    (hl : ly = .tripleBased → lx = .tripleBased)
    (hall : ly = .tripleBased → ∀ z ∈ y :: ys, z.layout = .tripleBased) :
    (intersectionAs lx x xs).Refines (intersectionAs ly y ys) where
  targets := by
    intro l hmem
    obtain ⟨l', hl', rfl⟩ := Finset.mem_image.1 hmem
    have hlx := mem_intersectionAs.1 hl'
    cases ly with
    | aggregated =>
      -- whatever is compared on the left, cut to the target it is in every table on the right
      refine Finset.mem_image.2 ⟨l'.take 1, mem_intersectionAs.2 fun b hb => ?_, take_take_one l'⟩
      obtain ⟨a, ha, hab⟩ := exists_left_of_mem h hb
      exact hab.targets (take_mem_cut (hlx a ha))
    | tripleBased =>
      obtain rfl := hl rfl
      refine Finset.mem_image_of_mem _ (mem_intersectionAs.2 fun b hb => ?_)
      obtain ⟨a, ha, hab⟩ := exists_left_of_mem h hb
      exact hab.lines (hall rfl b hb) (hlx a ha)
  layout hy := hl hy
  lines hy := by
    obtain rfl : ly = .tripleBased := hy
    obtain rfl := hl rfl
    intro l hmem
    refine mem_intersectionAs.2 fun b hb => ?_
    obtain ⟨a, ha, hab⟩ := exists_left_of_mem h hb
    exact hab.lines (hall rfl b hb) (mem_intersectionAs.1 hmem a ha)

variable {own own' : Bool}

/-- The union of refined tables, in their common layout. -/
theorem union_refines (h : List.Forall₂ Refines xs ys) (hown : own = true → own' = true) :
    OptRefines (union own xs) (union own' ys) := by
  have hcommon := fun hc => commonLayout_of_refines h hown hc
  have hall (hc : commonLayout ys own' = .tripleBased) : ∀ y ∈ ys, y.layout = .tripleBased :=
    (commonLayout_eq_tripleBased_iff.1 hc).2
  cases h with
  | nil => exact .none
  | cons hxy hs => exact .some (refines_unionAs (.cons hxy hs) hcommon hall)

/-- The intersection of refined tables, in their common layout. -/
theorem intersection_refines (h : List.Forall₂ Refines xs ys) (hown : own = true → own' = true) :
    OptRefines (intersection own xs) (intersection own' ys) := by
  have hcommon := fun hc => commonLayout_of_refines h hown hc
  have hall (hc : commonLayout ys own' = .tripleBased) : ∀ y ∈ ys, y.layout = .tripleBased :=
    (commonLayout_eq_tripleBased_iff.1 hc).2
  cases h with
  | nil => exact .none
  | cons hxy hs => exact .some (refines_intersectionAs (.cons hxy hs) hcommon hall)

/-! ## Parts -/

/-- The table of the first part refines that of the second, and the first sets no path of its own
if the second sets none. -/
structure Part.Refines (p q : Part) : Prop where
  table : OptRefines p.table q.table
  ownPath : p.ownPath = true → q.ownPath = true

theorem Part.Refines.refl (p : Part) : p.Refines p := ⟨.refl _, fun h => h⟩

variable {ps qs : List Part} {bs cs : List (List Part)}

/-- Refined parts have refined tables, and the same parts have none. -/
theorem tablesOf_refines (h : List.Forall₂ Part.Refines ps qs) :
    List.Forall₂ Refines (tablesOf ps) (tablesOf qs) :=
  List.rel_filterMap (fun _ _ hpq => hpq.table) h

/-- A part sets a path of its own only if the part that it refines does. -/
theorem any_ownPath_of_refines (h : List.Forall₂ Part.Refines ps qs)
    (hown : ps.any Part.ownPath = true) : qs.any Part.ownPath = true := by
  rw [List.any_eq_true] at hown ⊢
  obtain ⟨p, hp, hpo⟩ := hown
  obtain ⟨q, hq, hpq⟩ := exists_right_of_mem h hp
  exact ⟨q, hq, hpq.ownPath hpo⟩

/-- The same where only parts with a table count. -/
theorem ownPathOf_of_refines (h : List.Forall₂ Part.Refines ps qs)
    (hown : ownPathOf ps = true) : ownPathOf qs = true := by
  rw [ownPathOf, List.any_eq_true] at hown ⊢
  obtain ⟨p, hp, hpo⟩ := hown
  obtain ⟨q, hq, hpq⟩ := exists_right_of_mem h hp
  rw [Bool.and_eq_true] at hpo
  obtain ⟨htable, hpath⟩ := hpo
  refine ⟨q, hq, ?_⟩
  rw [hpq.ownPath hpath, Bool.and_true, ← hpq.table.isSome_eq]
  exact htable

/-- What members are united to is refined if they are. -/
theorem unite_refines (h : List.Forall₂ Part.Refines ps qs) : OptRefines (unite ps) (unite qs) :=
  union_refines (tablesOf_refines h) (ownPathOf_of_refines h)

/-- What branches are intersected to is refined if their parts are. -/
theorem intersect_refines (h : List.Forall₂ (List.Forall₂ Part.Refines) bs cs) :
    OptRefines (intersect bs) (intersect cs) := by
  refine intersection_refines (List.rel_filterMap (fun _ _ hb => unite_refines hb) h) ?_
  intro hown
  rw [List.any_eq_true] at hown ⊢
  obtain ⟨b, hb, hbo⟩ := hown
  obtain ⟨c, hc, hbc⟩ := exists_right_of_mem h hb
  exact ⟨c, hc, any_ownPath_of_refines hbc hbo⟩

/-- What a disjunction comes to is refined if the parts of its branches are. -/
theorem disjoin_refines (h : List.Forall₂ (List.Forall₂ Part.Refines) bs cs) :
    OptRefines (disjoin bs) (disjoin cs) := by
  rcases single_or_of_forall₂ h with ⟨p, q, rfl, rfl, hpq⟩ | ⟨hs, hs'⟩
  · exact hpq.table
  · rw [disjoin_eq_intersect hs, disjoin_eq_intersect hs']
    exact intersect_refines h

/-- The same for members each of which is a branch of its own. -/
theorem disjoin_singletons_refines (h : List.Forall₂ Part.Refines ps qs) :
    OptRefines (disjoin (ps.map fun p => [p])) (disjoin (qs.map fun q => [q])) :=
  disjoin_refines (forall₂_singletons h)

/-- The negation of a branch is refined if its parts are. -/
theorem negatedBranch_refines (h : List.Forall₂ Part.Refines ps qs) :
    (Part.negatedBranch ps).Refines (Part.negatedBranch qs) :=
  ⟨disjoin_singletons_refines h, any_ownPath_of_refines h⟩

/-! ## Parts without a table -/

/-- Does a part of some branch set its own path? -/
def anyOwnPath (branches : List (List Part)) : Bool := branches.any fun b => b.any Part.ownPath

/-- What is compared depends on the branches that have a table, and on own paths everywhere. -/
theorem intersect_refines_of_unite_eq (h : bs.filterMap unite = cs.filterMap unite)
    (hown : anyOwnPath bs = true → anyOwnPath cs = true) :
    OptRefines (intersect bs) (intersect cs) := by
  refine intersection_refines ?_ hown
  rw [h]
  exact List.forall₂_same.2 fun x _ => .refl x

/-- The table as it is combined if there is no other: whole, or cut to its targets. -/
def alone (own : Bool) (x : Table) : Table :=
  ⟨commonLayout [x] own, x.linesAs (commonLayout [x] own)⟩

/-- A table refines what is combined of it alone. -/
theorem refines_alone (own : Bool) (x : Table) : x.Refines (x.alone own) where
  targets l hl := by
    obtain ⟨l', hl', rfl⟩ := exists_take_of_mem_cut hl (commonLayout [x] own)
    exact Finset.mem_image_of_mem _ hl'
  layout hc := (commonLayout_eq_tripleBased_iff.1 hc).2 x (List.mem_singleton_self x)
  lines hc := by
    have hc : commonLayout [x] own = .tripleBased := hc
    rw [alone, hc]
    exact Finset.Subset.refl _

/-- If no path is set, that refines the table in turn. -/
theorem alone_refines (x : Table) : (x.alone false).Refines x := by
  have hcommon (hc : x.layout = .tripleBased) : commonLayout [x] false = .tripleBased :=
    commonLayout_eq_tripleBased_iff.2 ⟨rfl, List.forall_mem_singleton.2 hc⟩
  refine ⟨fun l hl => ?_, hcommon, fun hc => ?_⟩
  · obtain ⟨l', hl', rfl⟩ := Finset.mem_image.1 hl
    exact take_mem_cut hl'
  · rw [alone, hcommon hc]
    exact Finset.Subset.refl _

/-- A table that may be missing refines what is combined of it alone. -/
theorem optRefines_alone (own : Bool) : ∀ table : Option Table,
    OptRefines table (table.map (alone own))
  | none => .none
  | some x => .some (refines_alone own x)

/-- If no path is set, that refines it in turn. -/
theorem alone_optRefines : ∀ table : Option Table, OptRefines (table.map (alone false)) table
  | none => .none
  | some x => .some (alone_refines x)

/-- A single member is united to its own table, perhaps cut. -/
theorem unite_single (p : Part) : unite [p] = p.table.map (alone p.ownPath) := by
  obtain ⟨table, own⟩ := p
  cases table with
  | none => rfl
  | some x =>
    have hown : ownPathOf [⟨some x, own⟩] = own := by cases own <;> rfl
    rw [unite, hown]
    show some (unionAs (commonLayout [x] own) [x]) = some (alone own x)
    rw [Option.some.injEq, unionAs, List.foldr_cons, List.foldr_nil, Finset.union_empty]
    rfl

/-- What is cut once is not cut further. -/
theorem intersection_alone (own : Bool) (x : Table) :
    intersection own [x.alone own] = some (x.alone own) := by
  have hcommon : commonLayout [x.alone own] own = commonLayout [x] own := by
    cases hc : commonLayout [x] own with
    | tripleBased =>
      have hown := (commonLayout_eq_tripleBased_iff.1 hc).1
      exact commonLayout_eq_tripleBased_iff.2 ⟨hown, List.forall_mem_singleton.2 hc⟩
    | aggregated =>
      cases hc' : commonLayout [x.alone own] own with
      | aggregated => rfl
      | tripleBased =>
        have hlayout := (commonLayout_eq_tripleBased_iff.1 hc').2 _ (List.mem_singleton_self _)
        exact absurd (hc.symm.trans hlayout) (by decide)
  have hlines : (x.alone own).linesAs (commonLayout [x] own) = (x.alone own).lines :=
    linesAs_linesAs (commonLayout [x] own) _ x
  rw [intersection, hcommon, intersectionAs, hlines]
  refine congrArg some (Table.ext rfl ?_)
  exact Finset.filter_true_of_mem fun _ _ y hy => absurd hy List.not_mem_nil

/-- A single branch with a single member, treated like any other. -/
theorem intersect_single (p : Part) : intersect [[p]] = p.table.map (alone p.ownPath) := by
  have hown : ([[p]].any fun b => b.any Part.ownPath) = p.ownPath := by simp
  rw [intersect, hown, List.filterMap_cons, unite_single]
  cases p.table with
  | none => rfl
  | some x => exact intersection_alone p.ownPath x

/-- A single member keeps the columns that it has. -/
theorem disjoin_refines_intersect (bs : List (List Part)) :
    OptRefines (disjoin bs) (intersect bs) := by
  rcases single_or bs with ⟨p, rfl⟩ | hs
  · rw [intersect_single]
    exact optRefines_alone p.ownPath p.table
  · rw [disjoin_eq_intersect hs]
    exact .refl _

/-- A single member without its own path is not cut either way. -/
theorem intersect_refines_disjoin (h : ∀ p, bs = [[p]] → p.ownPath = false) :
    OptRefines (intersect bs) (disjoin bs) := by
  rcases single_or bs with ⟨p, rfl⟩ | hs
  · rw [intersect_single, h p rfl]
    exact alone_optRefines p.table
  · rw [disjoin_eq_intersect hs]
    exact .refl _

end Table

end GraphShapes
