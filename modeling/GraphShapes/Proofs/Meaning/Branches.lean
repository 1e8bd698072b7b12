import GraphShapes.Proofs.Meaning.Table

/-!
# What a disjunction makes of its branches

A branch reports the targets that one of its members reports, and a disjunction can report only
targets that every branch reports (`inEveryBranch_of_reports`). Whether it reports all of these
depends on what it compares. A disjunction that cuts every branch to its targets does
(`reports_of_inEveryBranch`); one that compares whole lines reports the targets of the lines that
every branch has (`hasLine_disjoin_iff`).

`comparesTargets` is the condition under which nothing is lost (`reports_disjoin`): the layout of
the disjunction is aggregated, or there are no two branches to compare.
-/

namespace GraphShapes

namespace Table

variable {branches : List (List Part)} {table : Table} {l : List Term} {t : Term}

/-- Every branch that has a table has a member of which the statement holds. -/
def InEveryBranch (branches : List (List Part)) (holds : Part → Prop) : Prop :=
  ∀ b ∈ branches, (∃ p ∈ b, p.table ≠ none) → ∃ p ∈ b, holds p

theorem exists_unite_iff {parts : List Part} :
    (∃ x, unite parts = some x) ↔ ∃ p ∈ parts, p.table ≠ none := by
  rw [← Option.ne_none_iff_exists', ne_eq, unite_eq_none_iff]
  push Not
  exact Iff.rfl

/-- For a single branch with a single member there is nothing to show. -/
theorem inEveryBranch_singleton {p : Part} {P : Part → Prop} (h : p.table ≠ none) :
    InEveryBranch [[p]] P ↔ P p := by
  constructor
  · intro hall
    obtain ⟨q, hq, hP⟩ := hall [p] (List.mem_singleton.2 rfl) ⟨p, List.mem_singleton.2 rfl, h⟩
    exact List.mem_singleton.1 hq ▸ hP
  · intro hP b hb _
    rw [List.mem_singleton.1 hb]
    exact ⟨p, List.mem_singleton.2 rfl, hP⟩

/-- A line of an intersection is a line of every branch under the layout of the intersection. -/
theorem hasLine_intersect (htable : intersect branches = some table) :
    HasLine (intersect branches) l ↔
      ∀ b ∈ branches, ∀ x, unite b = some x → l ∈ x.linesAs table.layout := by
  unfold intersect at htable ⊢
  have hmem : ∀ x, x ∈ branches.filterMap unite ↔ ∃ b ∈ branches, unite b = some x :=
    fun x => List.mem_filterMap
  generalize branches.filterMap unite = tables at htable hmem ⊢
  cases tables with
  | nil => cases htable
  | cons first rest =>
    obtain rfl := Option.some.inj htable
    rw [hasLine_intersection]
    constructor
    · intro h b hb x hx
      exact h.2 x ((hmem x).2 ⟨b, hb, hx⟩)
    · intro h
      refine ⟨List.cons_ne_nil first rest, fun x hx => ?_⟩
      obtain ⟨b, hb, hbx⟩ := (hmem x).1 hx
      exact h b hb x hbx

/-- Whole lines are compared only if all branches have them. -/
theorem layout_of_intersect (htable : intersect branches = some table)
    (hl : table.layout = .tripleBased) {b : List Part} (hb : b ∈ branches) {x : Table}
    (hx : unite b = some x) : x.layout = .tripleBased := by
  unfold intersect at htable
  have hmem : x ∈ branches.filterMap unite := List.mem_filterMap.2 ⟨b, hb, hx⟩
  generalize branches.filterMap unite = tables at htable hmem
  cases tables with
  | nil => cases htable
  | cons first rest =>
    obtain rfl := Option.some.inj htable
    exact (commonLayout_eq_tripleBased_iff.1 hl).2 x hmem

/-- A line of a conjunction with all columns is a line of a member. -/
theorem hasLine_unite_of_tripleBased {parts : List Part} (htable : unite parts = some table)
    (hl : table.layout = .tripleBased) :
    HasLine (unite parts) l ↔ ∃ p ∈ parts, HasLine p.table l := by
  have hc : commonLayout (tablesOf parts) (ownPathOf parts) = .tripleBased := by
    unfold unite at htable
    generalize tablesOf parts = tables at htable ⊢
    cases tables with
    | nil => cases htable
    | cons first rest =>
      obtain rfl := Option.some.inj htable
      exact hl
  rw [hasLine_unite, hc]
  exact Iff.rfl

theorem exists_disjoin (h : ∃ b ∈ branches, ∃ p ∈ b, p.table ≠ none) :
    ∃ x, disjoin branches = some x := by
  obtain ⟨b, hb, hplanned⟩ := h
  rcases single_or branches with ⟨p, rfl⟩ | hs
  · obtain rfl := List.mem_singleton.1 hb
    obtain ⟨q, hq, hne⟩ := hplanned
    exact List.mem_singleton.1 hq ▸ Option.ne_none_iff_exists'.1 hne
  · rw [disjoin_eq_intersect hs]
    obtain ⟨x, hx⟩ := exists_unite_iff.2 hplanned
    have hmem : x ∈ branches.filterMap unite := List.mem_filterMap.2 ⟨b, hb, hx⟩
    unfold intersect
    generalize branches.filterMap unite = tables at hmem ⊢
    cases tables with
    | nil => exact absurd hmem List.not_mem_nil
    | cons first rest => exact ⟨_, rfl⟩

/-- What a disjunction reports is reported of every branch. -/
theorem inEveryBranch_of_reports (h : Reports (disjoin branches) t) :
    InEveryBranch branches fun p => Reports p.table t := by
  rcases single_or branches with ⟨p, rfl⟩ | hs
  · obtain ⟨x, hx, -⟩ := id h
    have hp : p.table ≠ none := Option.ne_none_iff_exists'.2 ⟨x, hx⟩
    exact (inEveryBranch_singleton hp).2 h
  · intro b hb hplanned
    rw [disjoin_eq_intersect hs] at h
    obtain ⟨table, htable, hm⟩ := h
    obtain ⟨x, hx⟩ := exists_unite_iff.2 hplanned
    have hmentions := mentions_of_intersection htable hm x (List.mem_filterMap.2 ⟨b, hb, hx⟩)
    exact reports_unite.1 ⟨x, hx, hmentions⟩

/-- A disjunction that compares targets reports every target that is reported of every branch. -/
theorem reports_of_inEveryBranch (htable : disjoin branches = some table)
    (hl : table.layout = .aggregated) (h : InEveryBranch branches fun p => Reports p.table t) :
    Reports (disjoin branches) t := by
  rcases single_or branches with ⟨p, rfl⟩ | hs
  · have hp : p.table ≠ none := Option.ne_none_iff_exists'.2 ⟨table, htable⟩
    exact (inEveryBranch_singleton hp).1 h
  · rw [disjoin_eq_intersect hs] at htable ⊢
    -- cut to the target, the lines of all branches are the same
    refine reports_iff.2 ⟨[t], (hasLine_intersect htable).2 fun b hb x hx => ?_, rfl⟩
    obtain ⟨y, hy, l, hline, hlt⟩ := reports_unite.2 (h b hb (exists_unite_iff.1 ⟨x, hx⟩))
    obtain rfl : y = x := Option.some.inj (hy.symm.trans hx)
    rw [hl]
    refine Finset.mem_image.2 ⟨l, hline, ?_⟩
    cases l with
    | nil => cases hlt
    | cons u l => rw [Option.some.inj hlt]; rfl

/-- The lines of a disjunction that compares whole lines are those of every branch. -/
theorem hasLine_disjoin_iff (htable : disjoin branches = some table)
    (hl : table.layout = .tripleBased) :
    HasLine (disjoin branches) l ↔ InEveryBranch branches fun p => HasLine p.table l := by
  rcases single_or branches with ⟨p, rfl⟩ | hs
  · have hp : p.table ≠ none := Option.ne_none_iff_exists'.2 ⟨table, htable⟩
    exact (inEveryBranch_singleton (P := fun p => HasLine p.table l) hp).symm
  · rw [disjoin_eq_intersect hs] at htable ⊢
    rw [hasLine_intersect htable, hl]
    have hbranch : ∀ {b x}, b ∈ branches → unite b = some x →
        (l ∈ x.lines ↔ ∃ p ∈ b, HasLine p.table l) := by
      intro b x hb hx
      rw [← hasLine_unite_of_tripleBased hx (layout_of_intersect htable hl hb hx), hx]
      exact ⟨fun hlx => ⟨x, rfl, hlx⟩, fun ⟨y, hy, hly⟩ => Option.some.inj hy ▸ hly⟩
    constructor
    · intro h b hb hplanned
      obtain ⟨x, hx⟩ := exists_unite_iff.2 hplanned
      exact (hbranch hb hx).1 (h b hb x hx)
    · intro h b hb x hx
      exact (hbranch hb hx).2 (h b hb (exists_unite_iff.1 ⟨x, hx⟩))

/-! ## Nothing is lost -/

theorem disjoin_ne_none_iff :
    disjoin branches ≠ none ↔ ∃ b ∈ branches, ∃ p ∈ b, p.table ≠ none := by
  constructor
  · intro h
    rcases single_or branches with ⟨p, rfl⟩ | hs
    · exact ⟨[p], List.mem_singleton.2 rfl, p, List.mem_singleton.2 rfl, h⟩
    · rw [disjoin_eq_intersect hs] at h
      by_contra hno
      -- without a table in any branch there is nothing to intersect
      have hnone : ∀ b ∈ branches, unite b = none := by
        intro b hb
        refine unite_eq_none_iff.2 fun p hp => ?_
        by_contra hne
        exact hno ⟨b, hb, p, hp, hne⟩
      have hempty : branches.filterMap unite = [] := List.filterMap_eq_nil_iff.2 hnone
      rw [intersect, hempty] at h
      exact h rfl
  · intro h
    obtain ⟨x, hx⟩ := exists_disjoin h
    exact Option.ne_none_iff_exists'.2 ⟨x, hx⟩

theorem unite_ne_none_iff {parts : List Part} :
    unite parts ≠ none ↔ ∃ p ∈ parts, p.table ≠ none := by
  rw [← exists_unite_iff, Option.ne_none_iff_exists']

theorem disjoin_singletons_ne_none_iff {parts : List Part} :
    disjoin (parts.map fun p => [p]) ≠ none ↔ ∃ p ∈ parts, p.table ≠ none := by
  rw [disjoin_ne_none_iff]
  simp

/-- Does the disjunction compare nothing but targets? It does if its layout is aggregated, and if
there are no two branches to compare. -/
def comparesTargets (branches : List (List Part)) : Bool :=
  (branches.filterMap unite).length ≤ 1 || (disjoin branches).map layout ≠ some .tripleBased

/-- A disjunction of one branch that has a table reports what the branch reports. -/
theorem reports_of_single (hlen : (branches.filterMap unite).length ≤ 1)
    (htable : disjoin branches = some table)
    (h : InEveryBranch branches fun p => Reports p.table t) : Reports (disjoin branches) t := by
  rcases single_or branches with ⟨p, rfl⟩ | hs
  · have hp : p.table ≠ none := Option.ne_none_iff_exists'.2 ⟨table, htable⟩
    exact (inEveryBranch_singleton hp).1 h
  · rw [disjoin_eq_intersect hs] at htable ⊢
    have hbranch : ∀ x ∈ branches.filterMap unite, x.Mentions t := by
      intro x hx
      obtain ⟨b, hb, hbx⟩ := List.mem_filterMap.1 hx
      obtain ⟨y, hy, hm⟩ := reports_unite.2 (h b hb (exists_unite_iff.1 ⟨x, hbx⟩))
      obtain rfl : y = x := Option.some.inj (hy.symm.trans hbx)
      exact hm
    unfold intersect at htable ⊢
    generalize branches.filterMap unite = tables at htable hlen hbranch ⊢
    match tables, hlen with
    | [], _ => cases htable
    | [x], _ =>
      -- the one table is cut to the common layout, and keeps its targets
      refine ⟨_, rfl, ?_⟩
      obtain ⟨l, hl, hlt⟩ := exists_mem_linesAs.2 (hbranch x (List.mem_singleton.2 rfl))
      refine ⟨l, mem_intersectionAs.2 ?_, hlt⟩
      intro y hy
      rw [List.mem_singleton.1 hy]
      exact hl

/-- Where only targets are compared, a disjunction reports what every branch reports. -/
theorem reports_disjoin (hc : comparesTargets branches = true)
    (hplanned : ∃ b ∈ branches, ∃ p ∈ b, p.table ≠ none)
    (h : InEveryBranch branches fun p => Reports p.table t) : Reports (disjoin branches) t := by
  obtain ⟨table, htable⟩ := exists_disjoin hplanned
  rw [comparesTargets, htable, Bool.or_eq_true, decide_eq_true_eq, decide_eq_true_eq] at hc
  rcases hc with hlen | hlayout
  · exact reports_of_single hlen htable h
  · have hl : table.layout = .aggregated := by
      cases hl : table.layout with
      | aggregated => rfl
      | tripleBased => exact absurd (congrArg some hl) hlayout
    exact reports_of_inEveryBranch htable hl h

/-- What a disjunction compares does not depend on the targets. -/
theorem comparesTargets_restrict (targets : Finset Term) (branches : List (List Part)) :
    comparesTargets (branches.map fun b => b.map (Part.restrict targets)) =
      comparesTargets branches := by
  have htables : (branches.map fun b => b.map (Part.restrict targets)).filterMap unite =
      (branches.filterMap unite).map (restrict targets) := filterMap_unite_restrict branches
  have hlayout : (disjoin (branches.map fun b => b.map (Part.restrict targets))).map layout =
      (disjoin branches).map layout := by
    rw [disjoin_restrict, Option.map_map]
    rfl
  rw [comparesTargets, comparesTargets, htables, hlayout, List.length_map]

/-! ## Due targets -/

/-- The table reports a target only if it is due, and where nothing is lost also if it is due. -/
structure Judges (table : Option Table) (t : Term) (due lossless : Prop) : Prop where
  sound : Reports table t → due
  complete : lossless → due → Reports table t

theorem Judges.congr {found : Option Table} {due due' lossless lossless' : Prop}
    (h : Judges found t due lossless) (hdue : due' ↔ due) (hlossless : lossless' → lossless) :
    Judges found t due' lossless' :=
  ⟨fun hr => hdue.2 (h.sound hr), fun hl hd => h.complete (hlossless hl) (hdue.1 hd)⟩

section Judged

variable {α : Type} {f : α → Part} {due lossless planned : α → Prop}

/-- For a conjunction, a target is due if it is due for a member. -/
theorem judges_unite {ms : List α} (h : ∀ m ∈ ms, Judges (f m).table t (due m) (lossless m)) :
    Judges (unite (ms.map f)) t (∃ m ∈ ms, due m) (∀ m ∈ ms, lossless m) := by
  constructor
  · intro hr
    obtain ⟨p, hp, hpt⟩ := reports_unite.1 hr
    obtain ⟨m, hm, rfl⟩ := List.mem_map.1 hp
    exact ⟨m, hm, (h m hm).sound hpt⟩
  · intro hl hd
    obtain ⟨m, hm, hdue⟩ := hd
    exact reports_unite.2 ⟨f m, List.mem_map_of_mem hm, (h m hm).complete (hl m hm) hdue⟩

/-- For a disjunction, a target is due if it is due for every branch that has a table. -/
theorem judges_disjoin {bs : List (List α)} (hp : ∀ b ∈ bs, ∀ m ∈ b, (f m).table ≠ none ↔ planned m)
    (h : ∀ b ∈ bs, ∀ m ∈ b, Judges (f m).table t (due m) (lossless m)) :
    Judges (disjoin (bs.map fun b => b.map f)) t
      ((∃ b ∈ bs, ∃ m ∈ b, planned m) ∧ ∀ b ∈ bs, (∃ m ∈ b, planned m) → ∃ m ∈ b, due m)
      (comparesTargets (bs.map fun b => b.map f) = true ∧ ∀ b ∈ bs, ∀ m ∈ b, lossless m) := by
  -- a branch has a table just where one of its members is planned
  have hplanned : ∀ b ∈ bs, (∃ p ∈ b.map f, p.table ≠ none) ↔ ∃ m ∈ b, planned m := by
    intro b hb
    simp only [List.mem_map, exists_exists_and_eq_and]
    exact exists_congr fun m => and_congr_right fun hm => hp b hb m hm
  have hsome : (∃ b ∈ bs.map (List.map f), ∃ p ∈ b, p.table ≠ none) ↔
      ∃ b ∈ bs, ∃ m ∈ b, planned m := by
    constructor
    · intro hex
      obtain ⟨_, hb', hp'⟩ := hex
      obtain ⟨b, hb, rfl⟩ := List.mem_map.1 hb'
      exact ⟨b, hb, (hplanned b hb).1 hp'⟩
    · intro hex
      obtain ⟨b, hb, hm⟩ := hex
      exact ⟨b.map f, List.mem_map_of_mem hb, (hplanned b hb).2 hm⟩
  constructor
  · intro hr
    have hevery := inEveryBranch_of_reports hr
    obtain ⟨x, hx, -⟩ := hr
    refine ⟨hsome.1 (disjoin_ne_none_iff.1 (Option.ne_none_iff_exists'.2 ⟨x, hx⟩)), ?_⟩
    intro b hb hm
    obtain ⟨p, hpb, hpt⟩ := hevery _ (List.mem_map_of_mem hb) ((hplanned b hb).2 hm)
    obtain ⟨m, hm, rfl⟩ := List.mem_map.1 hpb
    exact ⟨m, hm, (h b hb m hm).sound hpt⟩
  · intro hl hd
    refine reports_disjoin hl.1 (hsome.2 hd.1) ?_
    intro b' hb' hb'p
    obtain ⟨b, hb, rfl⟩ := List.mem_map.1 hb'
    obtain ⟨m, hm, hdue⟩ := hd.2 b hb ((hplanned b hb).1 hb'p)
    exact ⟨f m, List.mem_map_of_mem hm, (h b hb m hm).complete (hl.2 b hb m hm) hdue⟩

theorem map_singletons (f : α → Part) (ms : List α) :
    (ms.map f).map (fun p => [p]) = (ms.map fun m => [m]).map fun b => b.map f := by
  rw [List.map_map, List.map_map]
  rfl

/-- With a branch for every member, a target is due if it is due for every member that has a
table. -/
theorem judges_singletons {ms : List α} (hp : ∀ m ∈ ms, (f m).table ≠ none ↔ planned m)
    (h : ∀ m ∈ ms, Judges (f m).table t (due m) (lossless m)) :
    Judges (disjoin ((ms.map f).map fun p => [p])) t
      ((∃ m ∈ ms, planned m) ∧ ∀ m ∈ ms, planned m → due m)
      (comparesTargets ((ms.map f).map fun p => [p]) = true ∧ ∀ m ∈ ms, lossless m) := by
  have hmem : ∀ b ∈ ms.map (fun m => [m]), ∀ m ∈ b, m ∈ ms := by
    intro b hb m hm
    obtain ⟨m', hm', rfl⟩ := List.mem_map.1 hb
    exact List.mem_singleton.1 hm ▸ hm'
  rw [map_singletons]
  refine (judges_disjoin (fun b hb m hm => hp m (hmem b hb m hm))
    fun b hb m hm => h m (hmem b hb m hm)).congr ?_ ?_
  · simp
  · exact fun hl => ⟨hl.1, fun b hb m hm => hl.2 m (hmem b hb m hm)⟩

end Judged

end Table

end GraphShapes
