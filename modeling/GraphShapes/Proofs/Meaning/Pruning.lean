import GraphShapes.Proofs.Meaning.Rewriting

/-!
# Deleting shapes that are switched off

A shape that is switched off has no table, but its place in a disjunction may still count: a
disjunction cuts its branches to their targets as soon as some member sets a path of its own, be it
switched off or not, and a single member is forwarded as it is. Without the shape, more may be
compared, so that no more is reported (`Prunes.refines`).

The two make no difference if the shape sets no path of its own, or another shape of its branch
does, and no single shape is left that sets one (`KeepsPaths`, `Prunes.refined`).
-/

namespace GraphShapes

/-- With another item beside it, an item is not the only one. -/
theorem append_cons_ne_singleton {α : Type} {as bs : List α} (hne : as ++ bs ≠ []) (a x : α) :
    as ++ a :: bs ≠ [x] := by
  intro h
  have hlength : as.length + (bs.length + 1) = 1 := by
    simpa using congrArg List.length h
  refine hne (List.eq_nil_of_length_eq_zero ?_)
  rw [List.length_append]
  omega

/-- The members of a list with one more item in its middle. -/
theorem mem_append_cons_iff {α : Type} {as bs : List α} {a x : α} :
    x ∈ as ++ a :: bs ↔ x = a ∨ x ∈ as ++ bs := by
  rw [List.mem_append, List.mem_append, List.mem_cons, or_left_comm]

/-- The members of all branches, with one more branch in the middle. -/
theorem mem_flatten_append_cons_iff {α : Type} {above below : List (List α)} {b : List α} {x : α} :
    x ∈ (above ++ b :: below).flatten ↔ x ∈ b ∨ x ∈ (above ++ below).flatten := by
  rw [List.flatten_append, List.flatten_append, List.flatten_cons, List.mem_append, List.mem_append,
    List.mem_append, or_left_comm]

namespace Table

/-! ## Deleting parts without a table -/

section Delete

variable {α : Type} {f : α → Part} {bs cs : List (List α)}

/-- Whether a part of some branch sets a path, said of what the parts are made of. -/
theorem anyOwnPath_map_iff : anyOwnPath (bs.map fun b => b.map f) = true ↔
    ∃ m ∈ bs.flatten, (f m).ownPath = true := by
  simp only [anyOwnPath, List.any_map, List.any_eq_true, List.mem_flatten, Function.comp_apply]
  constructor
  · intro h
    obtain ⟨b, hb, m, hm, hown⟩ := h
    exact ⟨m, ⟨b, hb, hm⟩, hown⟩
  · intro h
    obtain ⟨m, ⟨b, hb, hm⟩, hown⟩ := h
    exact ⟨b, hb, m, hm, hown⟩

/-- Parts are a single one in a single branch only if what they are made of is. -/
theorem map_ne_single (hs : ∀ m, cs ≠ [[m]]) (p : Part) : (cs.map fun b => b.map f) ≠ [[p]] := by
  intro h
  obtain ⟨b, rfl, hb⟩ := List.map_eq_singleton_iff.1 h
  obtain ⟨m, rfl, -⟩ := List.map_eq_singleton_iff.1 hb
  exact hs m rfl

section Compared

variable (hs : ∀ m, cs ≠ [[m]]) (htables : (bs.map fun b => b.map f).filterMap unite =
  (cs.map fun b => b.map f).filterMap unite)
include hs htables

/-- With fewer own paths more is compared. A single member that is left keeps its columns. -/
theorem disjoin_refines_of_deleted (hown : ∀ m ∈ bs.flatten, m ∈ cs.flatten) :
    OptRefines (disjoin (bs.map fun b => b.map f)) (disjoin (cs.map fun b => b.map f)) := by
  rw [disjoin_eq_intersect (map_ne_single hs)]
  refine (disjoin_refines_intersect _).trans (intersect_refines_of_unite_eq htables fun h => ?_)
  obtain ⟨m, hm, hmown⟩ := anyOwnPath_map_iff.1 h
  exact anyOwnPath_map_iff.2 ⟨m, hown m hm, hmown⟩

/-- As much is compared if there are as many own paths, and if no single member is left that sets
one. -/
theorem disjoin_deleted_refines
    (hown : ∀ m ∈ cs.flatten, (f m).ownPath = true → ∃ m' ∈ bs.flatten, (f m').ownPath = true)
    (hsingle : ∀ m, bs = [[m]] → (f m).ownPath = false) :
    OptRefines (disjoin (cs.map fun b => b.map f)) (disjoin (bs.map fun b => b.map f)) := by
  rw [disjoin_eq_intersect (map_ne_single hs)]
  refine (intersect_refines_of_unite_eq htables.symm fun h => ?_).trans
    (intersect_refines_disjoin fun p hp => ?_)
  · obtain ⟨m, hm, hmown⟩ := anyOwnPath_map_iff.1 h
    exact anyOwnPath_map_iff.2 (hown m hm hmown)
  · obtain ⟨b, rfl, hb⟩ := List.map_eq_singleton_iff.1 hp
    obtain ⟨m, rfl, rfl⟩ := List.map_eq_singleton_iff.1 hb
    exact hsingle m rfl

end Compared

variable {before after b : List α} {d : α} {above below : List (List α)}

/-- A conjunction passes over members without a table. -/
theorem unite_delete (hd : (f d).table = none) :
    unite ((before ++ d :: after).map f) = unite ((before ++ after).map f) := by
  have htables : tablesOf ((before ++ d :: after).map f) = tablesOf ((before ++ after).map f) := by
    simp [tablesOf, hd]
  have hown : ownPathOf ((before ++ d :: after).map f) = ownPathOf ((before ++ after).map f) := by
    simp [ownPathOf, hd]
  rw [unite, unite, htables, hown]

section Branch

variable (hb : unite (b.map f) = none) (hne : above ++ below ≠ [])
include hb hne

/-- Without a branch that has no table, a disjunction compares at least as much. -/
theorem disjoin_refines_of_branch_deleted :
    OptRefines (disjoin ((above ++ below).map fun b => b.map f))
      (disjoin ((above ++ b :: below).map fun b => b.map f)) := by
  refine disjoin_refines_of_deleted (fun m => append_cons_ne_singleton hne b [m]) ?_ ?_
  · simp [hb]
  · exact fun m hm => mem_flatten_append_cons_iff.2 (.inr hm)

/-- Nor does it compare more, if another member sets a path wherever one of the branch did, and no
single one is left that does. -/
theorem branch_deleted_refines
    (hown : (∃ m ∈ b, (f m).ownPath = true) →
      ∃ m ∈ (above ++ below).flatten, (f m).ownPath = true)
    (hsingle : ∀ m, (above ++ below).flatten = [m] → (f m).ownPath = false) :
    OptRefines (disjoin ((above ++ b :: below).map fun b => b.map f))
      (disjoin ((above ++ below).map fun b => b.map f)) := by
  refine disjoin_deleted_refines (fun m => append_cons_ne_singleton hne b [m]) ?_ ?_ ?_
  · simp [hb]
  · intro m hm hmown
    rcases mem_flatten_append_cons_iff.1 hm with hm | hm
    · exact hown ⟨m, hm, hmown⟩
    · exact ⟨m, hm, hmown⟩
  · exact fun m hm => hsingle m (by rw [hm]; rfl)

end Branch

section Member

variable (hd : (f d).table = none) (hne : before ++ after ≠ [])
include hd hne

omit hd in
/-- A member that has others beside it is not forwarded. -/
theorem member_not_alone (m : α) : above ++ (before ++ d :: after) :: below ≠ [[m]] := by
  intro h
  have hmem : before ++ d :: after ∈ [[m]] := h ▸ List.mem_append_cons_self
  exact append_cons_ne_singleton hne d m (List.mem_singleton.1 hmem)

omit hne in
/-- Without a member that has no table, every branch is united to the same. -/
theorem filterMap_unite_delete :
    ((above ++ (before ++ after) :: below).map fun b => b.map f).filterMap unite =
      ((above ++ (before ++ d :: after) :: below).map fun b => b.map f).filterMap unite := by
  simp only [List.filterMap_map, List.filterMap_append, List.filterMap_cons, Function.comp_apply,
    unite_delete hd]

/-- Without a member that has no table, a disjunction compares at least as much. -/
theorem disjoin_refines_of_member_deleted :
    OptRefines (disjoin ((above ++ (before ++ after) :: below).map fun b => b.map f))
      (disjoin ((above ++ (before ++ d :: after) :: below).map fun b => b.map f)) := by
  refine disjoin_refines_of_deleted (member_not_alone hne) (filterMap_unite_delete hd) ?_
  intro m hm
  refine mem_flatten_append_cons_iff.2 ((mem_flatten_append_cons_iff.1 hm).imp_left fun h => ?_)
  exact mem_append_cons_iff.2 (.inr h)

/-- Nor does it compare more, if another member of the branch sets a path wherever that one did, and
no single one is left that does. -/
theorem member_deleted_refines
    (hown : (f d).ownPath = true → ∃ m ∈ before ++ after, (f m).ownPath = true)
    (hsingle : ∀ m, before ++ after = [m] → (f m).ownPath = false) :
    OptRefines (disjoin ((above ++ (before ++ d :: after) :: below).map fun b => b.map f))
      (disjoin ((above ++ (before ++ after) :: below).map fun b => b.map f)) := by
  refine disjoin_deleted_refines (member_not_alone hne) (filterMap_unite_delete hd) ?_ ?_
  · intro m hm hmown
    rcases mem_flatten_append_cons_iff.1 hm with hm | hm
    · rcases mem_append_cons_iff.1 hm with rfl | hm
      · obtain ⟨m', hm', hmown'⟩ := hown hmown
        exact ⟨m', mem_flatten_append_cons_iff.2 (.inl hm'), hmown'⟩
      · exact ⟨m, mem_flatten_append_cons_iff.2 (.inl hm), hmown⟩
    · exact ⟨m, mem_flatten_append_cons_iff.2 (.inr hm), hmown⟩
  · intro m hm
    have hmem : before ++ after ∈ [[m]] := hm ▸ List.mem_append_cons_self
    exact hsingle m (List.mem_singleton.1 hmem)

end Member

/-! The negation of a branch is a disjunction with a branch for every member. -/

section Negated

/-- Negated branches are compared as the disjunctions that they are. -/
theorem negatedBranch_refines_of_singletons {ms ms' : List α}
    (htable : OptRefines (disjoin ((ms.map fun m => [m]).map fun b => b.map f))
      (disjoin ((ms'.map fun m => [m]).map fun b => b.map f)))
    (hown : ∀ m ∈ ms, (f m).ownPath = true → ∃ m' ∈ ms', (f m').ownPath = true) :
    (Part.negatedBranch (ms.map f)).Refines (Part.negatedBranch (ms'.map f)) := by
  refine ⟨?_, fun h => ?_⟩
  · show OptRefines (disjoin ((ms.map f).map _)) (disjoin ((ms'.map f).map _))
    rw [map_singletons, map_singletons]
    exact htable
  · have h : (ms.map f).any Part.ownPath = true := h
    show (ms'.map f).any Part.ownPath = true
    rw [List.any_map, List.any_eq_true] at h ⊢
    obtain ⟨m, hm, hmown⟩ := h
    exact hown m hm hmown

/-- The members of branches of one member each. -/
theorem flatten_singletons (ms : List α) : (ms.map fun m => [m]).flatten = ms := by
  rw [← List.flatMap_def, List.flatMap_singleton']

variable (hd : (f d).table = none) (hne : before ++ after ≠ [])
include hd hne

/-- Without a member that has no table, the negation of a branch compares at least as much. -/
theorem negatedBranch_refines_of_deleted :
    (Part.negatedBranch ((before ++ after).map f)).Refines
      (Part.negatedBranch ((before ++ d :: after).map f)) := by
  have hb : unite ([d].map f) = none := unite_eq_none_iff.2 (List.forall_mem_singleton.2 hd)
  have hne' : (before ++ after).map (fun m => [m]) ≠ [] := fun h => hne (List.map_eq_nil_iff.1 h)
  refine negatedBranch_refines_of_singletons ?_ ?_
  · rw [List.map_append] at hne'
    rw [List.map_append (f := fun m => [m]), List.map_append (f := fun m => [m]), List.map_cons]
    exact disjoin_refines_of_branch_deleted hb hne'
  · exact fun m hm hown => ⟨m, mem_append_cons_iff.2 (.inr hm), hown⟩

/-- Nor does it compare more, if another member sets a path wherever that one did, and no single one
is left that does. -/
theorem negatedBranch_deleted_refines
    (hown : (f d).ownPath = true → ∃ m ∈ before ++ after, (f m).ownPath = true)
    (hsingle : ∀ m, before ++ after = [m] → (f m).ownPath = false) :
    (Part.negatedBranch ((before ++ d :: after).map f)).Refines
      (Part.negatedBranch ((before ++ after).map f)) := by
  have hb : unite ([d].map f) = none := unite_eq_none_iff.2 (List.forall_mem_singleton.2 hd)
  have hne' : (before ++ after).map (fun m => [m]) ≠ [] := fun h => hne (List.map_eq_nil_iff.1 h)
  have hflatten := flatten_singletons (before ++ after)
  refine negatedBranch_refines_of_singletons ?_ ?_
  · rw [List.map_append] at hne' hflatten
    rw [List.map_append (f := fun m => [m]), List.map_append (f := fun m => [m]), List.map_cons]
    refine branch_deleted_refines hb hne' ?_ ?_
    · rw [hflatten]
      intro hex
      obtain ⟨m, hm, hmown⟩ := hex
      obtain rfl := List.mem_singleton.1 hm
      exact hown hmown
    · rw [hflatten]
      exact hsingle
  · intro m hm hmown
    rcases mem_append_cons_iff.1 hm with rfl | hm
    · exact hown hmown
    · exact ⟨m, hm, hmown⟩

end Negated

end Delete

end Table

namespace Shape

/-! ## Deleting shapes -/

/-- A shape, and the same shape without some shapes that are switched off: a member of a
conjunction, a member of a branch, or a whole branch. What the list that they are deleted from still
holds is not empty, and is united in the first polarity, if there is one. -/
inductive Prunes : Option Bool → List Shape → List Shape → Shape → Shape → Prop where
  | member (h : ShapeHead) (before after : List Shape) {d : Shape} (hd : d.deactivated = true)
    (hne : before ++ after ≠ []) : Prunes (some false) [d] (before ++ after)
      (.conj h (before ++ d :: after)) (.conj h (before ++ after))
  | branchMember (h : ShapeHead) (above below : List (List Shape)) (before after : List Shape)
    {d : Shape} (hd : d.deactivated = true) (hne : before ++ after ≠ []) :
    Prunes none [d] (before ++ after) (.disj h (above ++ (before ++ d :: after) :: below))
      (.disj h (above ++ (before ++ after) :: below))
  | branch (h : ShapeHead) (above below : List (List Shape)) {b : List Shape}
    (hb : ∀ d ∈ b, d.deactivated = true) (hne : above ++ below ≠ []) :
    Prunes (some true) b (above ++ below).flatten (.disj h (above ++ b :: below))
      (.disj h (above ++ below))

/-- If a deleted shape sets its own path, so does a shape that is left, and a single shape that is
left sets none. -/
def KeepsPaths (path : Option Path) (gone left : List Shape) : Prop :=
  ((∃ d ∈ gone, d.hasOwnPath path = true) → ∃ m ∈ left, m.hasOwnPath path = true) ∧
    ∀ only, left = [only] → only.hasOwnPath path = false

/-- The second shape is the first without some shapes that are switched off. -/
def IsPruned (s s' : Shape) : Prop := ∃ united gone left, Prunes united gone left s s'

/-- The second shape is the first without some shapes that are switched off, and these make no
difference to what is compared in this polarity where this path holds. -/
def IsPrunedQuietly (path : Option Path) (negate : Bool) (s s' : Shape) : Prop :=
  ∃ united gone left, Prunes united gone left s s' ∧
    (united = some negate ∨ KeepsPaths (s.path?.or path) gone left)

section Prunes

variable {united : Option Bool} {gone left : List Shape} {s s' : Shape} {path : Option Path}
  {negate : Bool}

/-- What is switched off is not violated. -/
theorem violates_of_deactivated (hd : s.deactivated = true) (G : Store) (t : Term) :
    s.violates G t path = false :=
  violates_of_not_isLive (isLive_of_deactivated hd) G t path

/-- A branch in which everything is switched off does not count. -/
theorem any_isLive_of_deactivated {b : List Shape} (hb : ∀ d ∈ b, d.deactivated = true) :
    b.any isLive = false := by
  refine List.any_eq_false.2 fun d hd => ?_
  rw [isLive_of_deactivated (hb d hd)]
  exact Bool.false_ne_true

/-- Where a shape is deleted another one is left, so the tree stays well-formed. -/
theorem Prunes.wellFormed (h : Prunes united gone left s s') (hw : s.wellFormed = true) :
    s'.wellFormed = true := by
  cases h with
  | member h before after _ hne =>
    simp only [Shape.wellFormed, allWellFormed_eq, List.all_append, List.all_cons, Bool.or_eq_true,
      Bool.and_eq_true, Bool.not_eq_true', List.isEmpty_eq_false_iff] at hw ⊢
    refine hw.imp_right fun hw => ?_
    obtain ⟨-, hbefore, -, hafter⟩ := hw
    exact ⟨hne, hbefore, hafter⟩
  | branchMember h above below before after _ hne =>
    simp only [Shape.wellFormed, branchesWellFormed_eq, List.all_append, List.all_cons,
      Bool.or_eq_true, Bool.and_eq_true, Bool.not_eq_true', List.isEmpty_eq_false_iff] at hw ⊢
    refine hw.imp_right fun hw => ?_
    obtain ⟨-, habove, ⟨-, hbefore, -, hafter⟩, hbelow⟩ := hw
    exact ⟨List.append_ne_nil_of_right_ne_nil _ (List.cons_ne_nil _ _), habove,
      ⟨hne, hbefore, hafter⟩, hbelow⟩
  | branch h above below _ hne =>
    simp only [Shape.wellFormed, branchesWellFormed_eq, List.all_append, List.all_cons,
      Bool.or_eq_true, Bool.and_eq_true, Bool.not_eq_true', List.isEmpty_eq_false_iff] at hw ⊢
    refine hw.imp_right fun hw => ?_
    obtain ⟨-, habove, -, hbelow⟩ := hw
    exact ⟨hne, habove, hbelow⟩

/-- What is switched off does not count in the logic of shapes. -/
theorem Prunes.alike (h : Prunes united gone left s s') : Alike path s s' := by
  refine ⟨?_, fun G t => ?_⟩
  · cases h with
    | member h before after hd _ => simp [isLive, anyLive_eq, isLive_of_deactivated hd]
    | branchMember h above below before after hd _ =>
      simp [isLive, anyBranchLive_eq, isLive_of_deactivated hd]
    | branch h above below hb _ =>
      simp [isLive, anyBranchLive_eq, any_isLive_of_deactivated hb]
  · cases h with
    | member h before after hd _ => simp [violates, violatesAny_eq, violates_of_deactivated hd]
    | branchMember h above below before after hd _ =>
      simp [violates, anyBranchLive_eq, violatesEvery_eq, violates_of_deactivated hd,
        isLive_of_deactivated hd]
    | branch h above below hb _ =>
      simp [violates, anyBranchLive_eq, violatesEvery_eq, any_isLive_of_deactivated hb]

/-! ## What is compared -/

/-- The parts of shapes that are switched off have no table. -/
theorem table_of_deactivated {b : List Shape} (hb : ∀ d ∈ b, d.deactivated = true) (G : Store)
    (T : Finset Term) (path : Option Path) (negate : Bool) :
    ∀ p ∈ b.map (part G T path negate), p.table = none := by
  intro p hp
  obtain ⟨d, hd, rfl⟩ := List.mem_map.1 hp
  exact rows_of_deactivated (hb d hd) G T path negate

/-- The negation of a branch in which everything is switched off has no table. -/
theorem negatedBranch_of_deactivated {b : List Shape} (hb : ∀ d ∈ b, d.deactivated = true)
    (G : Store) (T : Finset Term) (path : Option Path) :
    (Table.Part.negatedBranch (b.map (part G T path true))).table = none := by
  by_contra hne
  obtain ⟨p, hp, hpne⟩ := Table.disjoin_singletons_ne_none_iff.1 hne
  exact hpne (table_of_deactivated hb G T path true p hp)

/-- Deleting a member leaves the head of the shape alone. -/
theorem Prunes.head_eq (h : Prunes united gone left s s') : s'.head = s.head := by
  cases h <;> rfl

/-- Where the list that they are deleted from is united, nothing changes. -/
theorem Prunes.rows_eq (h : Prunes (some negate) gone left s s') (hd : s.head.deactivated = false)
    (G : Store) (T : Finset Term) : s'.rows G T path negate = s.rows G T path negate := by
  cases h with
  | member h before after hoff hne =>
    have hd : h.deactivated = false := hd
    rw [rows_conj hd, rows_conj hd, Table.unite_delete (rows_of_deactivated hoff G T _ false)]
  | branch h above below hb hne =>
    have hd : h.deactivated = false := hd
    rw [rows_neg_disj hd, rows_neg_disj hd]
    exact (Table.unite_delete (f := fun b : List Shape => Table.Part.negatedBranch
      (b.map (part G T (h.path.or path) true))) (negatedBranch_of_deactivated hb G T _)).symm

/-- The negations of branches, one of them without a shape that is switched off. -/
theorem negatedBranches_refine {above below : List (List Shape)} {b b' : List Shape} {G : Store}
    {T : Finset Term} (hb : (Table.Part.negatedBranch (b.map (part G T path true))).Refines
      (Table.Part.negatedBranch (b'.map (part G T path true)))) :
    Table.OptRefines
      (Table.unite ((above ++ b :: below).map fun b =>
        Table.Part.negatedBranch (b.map (part G T path true))))
      (Table.unite ((above ++ b' :: below).map fun b =>
        Table.Part.negatedBranch (b.map (part G T path true)))) := by
  rw [List.map_append, List.map_append, List.map_cons, List.map_cons]
  exact Table.unite_refines (forall₂_replace Table.Part.Refines.refl hb _ _)

/-- Without shapes that are switched off, no more is reported. -/
theorem Prunes.refines (h : Prunes united gone left s s') : Refines path negate s' s := by
  refine refines_of_rows h.head_eq rfl fun hd G T => ?_
  -- in the polarity in which the list is united, nothing changes at all
  by_cases hu : united = some negate
  · subst hu
    rw [h.rows_eq hd]
    exact .refl _
  cases h with
  | member h before after hoff hne =>
    have hd : h.deactivated = false := hd
    have hnone := rows_of_deactivated hoff G T (h.path.or path) negate
    cases negate with
    | false => exact absurd rfl hu
    | true =>
      rw [rows_neg_conj hd, rows_neg_conj hd]
      exact (Table.negatedBranch_refines_of_deleted hnone hne).table
  | branchMember h above below before after hoff hne =>
    have hd : h.deactivated = false := hd
    have hnone := rows_of_deactivated hoff G T (h.path.or path) negate
    cases negate with
    | false =>
      rw [rows_disj hd, rows_disj hd]
      exact Table.disjoin_refines_of_member_deleted hnone hne
    | true =>
      rw [rows_neg_disj hd, rows_neg_disj hd]
      exact negatedBranches_refine (Table.negatedBranch_refines_of_deleted hnone hne)
  | branch h above below hb hne =>
    have hd : h.deactivated = false := hd
    have hnone := table_of_deactivated hb G T (h.path.or path) negate
    cases negate with
    | true => exact absurd rfl hu
    | false =>
      rw [rows_disj hd, rows_disj hd]
      exact Table.disjoin_refines_of_branch_deleted (Table.unite_eq_none_iff.2 hnone) hne

/-- Just as much is reported if the list that they are deleted from is united, or if this leaves the
own paths as they are. -/
theorem Prunes.refined (h : Prunes united gone left s s')
    (hk : united = some negate ∨ KeepsPaths (s.path?.or path) gone left) :
    Refines path negate s s' := by
  refine refines_of_rows rfl h.head_eq fun hd G T => ?_
  -- in the polarity in which the list is united, nothing changes at all
  by_cases hu : united = some negate
  · subst hu
    rw [h.rows_eq hd]
    exact .refl _
  -- otherwise the own paths decide, and these stay as they are
  obtain ⟨hown, hsingle⟩ := hk.resolve_left hu
  cases h with
  | @member h before after d hoff hne =>
    have hd : h.deactivated = false := hd
    have hnone := rows_of_deactivated hoff G T (h.path.or path) negate
    cases negate with
    | false => exact absurd rfl hu
    | true =>
      rw [rows_neg_conj hd, rows_neg_conj hd]
      exact (Table.negatedBranch_deleted_refines hnone hne
        (fun h => hown ⟨d, List.mem_singleton_self d, h⟩) hsingle).table
  | @branchMember h above below before after d hoff hne =>
    have hd : h.deactivated = false := hd
    have hnone := rows_of_deactivated hoff G T (h.path.or path) negate
    have hown' : d.hasOwnPath (h.path.or path) = true → _ :=
      fun h => hown ⟨d, List.mem_singleton_self d, h⟩
    cases negate with
    | false =>
      rw [rows_disj hd, rows_disj hd]
      exact Table.member_deleted_refines hnone hne hown' hsingle
    | true =>
      rw [rows_neg_disj hd, rows_neg_disj hd]
      exact negatedBranches_refine (Table.negatedBranch_deleted_refines hnone hne hown' hsingle)
  | branch h above below hb hne =>
    have hd : h.deactivated = false := hd
    have hnone := table_of_deactivated hb G T (h.path.or path) negate
    cases negate with
    | true => exact absurd rfl hu
    | false =>
      rw [rows_disj hd, rows_disj hd]
      exact Table.branch_deleted_refines (Table.unite_eq_none_iff.2 hnone) hne hown hsingle

end Prunes

end Shape

end GraphShapes
