import GraphShapes.Proofs.Meaning.Changes

/-!
# What an incremental pass can and cannot miss

Two facts about `Shape.changes`, the lines that a pass reports. No target is reported wrongly: it
is one that the shape reports about all targets (`Shape.reports_rows_of_changes`). And no target is
missed that is new: one that the shape reports about the data as it is, and did not report about
the data as it was (`Shape.reports_changes_of_new`).

The second fact is an induction on lines and not on targets (`Table.Catch`). A target may have been
reported before and be reported still, for other reasons, and a disjunction that compares whole
lines needs to know which line is new. What a pass does not look at has not changed
(`View.Follows`).

Both facts hold for passes that judge disjunctions for their candidates only. A pass that does not
must see the same targets everywhere, or none at all (`View.Even`); then it reports the same
targets as one that does.
-/

namespace GraphShapes

open Table (Bare Reports HasLine unite intersect commonLayout)

/-! ## No false alarms -/

namespace Piece

variable {G : Store} {T : Finset Term}

/-- The pass reports only targets that the member reports among the given ones. -/
def Sound (G : Store) (T : Finset Term) (p : Piece) : Prop :=
  ∀ t, Reports p.found t → Reports (p.among G T) t

/-- A piece that is passed over reports nothing, any other what is found of it. -/
theorem reports_touchedPart {p : Piece} {t : Term} (h : Reports p.touchedPart.table t) :
    Reports p.found t := by
  unfold touchedPart at h
  simp only at h
  split at h
  · exact h
  · exact absurd h Table.not_reports_none

/-- A conjunction reports what one of its pieces reports. -/
theorem reports_conjoin {pieces : List Piece} {t : Term} :
    Reports (View.conjoin pieces) t ↔ ∃ p ∈ pieces, Reports p.touchedPart.table t := by
  unfold View.conjoin
  rw [Table.reports_unite]
  constructor
  · intro h
    obtain ⟨q, hq, hr⟩ := h
    obtain ⟨p, hp, rfl⟩ := List.mem_map.1 hq
    exact ⟨p, hp, hr⟩
  · intro h
    obtain ⟨p, hp, hr⟩ := h
    exact ⟨_, List.mem_map_of_mem hp, hr⟩

/-- The candidates are the targets that some branch reports. -/
theorem mem_targetsOf_candidates {branches : List (List Piece)} {t : Term} :
    t ∈ Table.targetsOf (candidates branches) ↔ ∃ b ∈ branches, Reports (View.conjoin b) t := by
  rw [Table.mem_targetsOf]
  constructor
  · intro h
    obtain ⟨x, hx, hm⟩ := h
    obtain ⟨b, hb, hbx⟩ := List.mem_filterMap.1 hx
    exact ⟨b, hb, x, hbx, hm⟩
  · intro h
    obtain ⟨b, hb, x, hbx, hm⟩ := h
    exact ⟨x, List.mem_filterMap.2 ⟨b, hb, hbx⟩, hm⟩

/-- If no piece reports a wrong target, all candidates are among the targets. -/
theorem candidates_subset {branches : List (List Piece)}
    (h : ∀ b ∈ branches, ∀ p ∈ b, p.Sound G T) :
    Table.targetsOf (candidates branches) ⊆ T := by
  intro t ht
  obtain ⟨b, hb, hr⟩ := mem_targetsOf_candidates.1 ht
  obtain ⟨p, hp, hr⟩ := reports_conjoin.1 hr
  exact mem_of_reports_among (h b hb p hp t (reports_touchedPart hr))

end Piece

namespace View

variable {view : View} {G : Store} {T : Finset Term}

/-- What a conjunction of such pieces reports, it reports about all targets. -/
theorem conjoin_sound {pieces : List Piece} (h : ∀ p ∈ pieces, p.Sound G T) {t : Term}
    (ht : Reports (conjoin pieces) t) :
    Reports (unite (pieces.map (Piece.partAmong G T))) t := by
  obtain ⟨p, hp, hr⟩ := Piece.reports_conjoin.1 ht
  exact Table.reports_unite.2
    ⟨_, List.mem_map_of_mem hp, h p hp t (Piece.reports_touchedPart hr)⟩

/-- The branches are judged for few candidates, but in full. -/
theorem intersectBranches_sound (hr : view.restricted = true) {branches : List (List Piece)}
    (h : ∀ b ∈ branches, ∀ p ∈ b, p.Sound view.graph T) {t : Term}
    (ht : Reports (view.intersectBranches branches) t) :
    Reports (intersect (Piece.branchesAmong view.graph T branches)) t := by
  unfold intersectBranches at ht
  rw [if_pos hr] at ht
  split at ht
  · exact absurd ht Table.not_reports_none
  · rw [Piece.branchesAmong_restrict (Piece.candidates_subset h), Table.intersect_restrict,
      Table.reports_restrict] at ht
    exact ht.1

/-- So it is for a disjunction, whose branches are judged again for the candidates. -/
theorem disjoin_sound (hr : view.restricted = true) {branches : List (List Piece)}
    (h : ∀ b ∈ branches, ∀ p ∈ b, p.Sound view.graph T) {t : Term}
    (ht : Reports (view.disjoin branches) t) :
    Reports (Table.disjoin (Piece.branchesAmong view.graph T branches)) t := by
  rcases Table.single_or branches with ⟨p, rfl⟩ | hs
  · exact h _ (List.mem_singleton.2 rfl) p (List.mem_singleton.2 rfl) t ht
  · rw [disjoin_eq_intersectBranches hs] at ht
    rw [Piece.disjoin_branchesAmong hs]
    exact intersectBranches_sound hr h ht

end View

/-! ## No new line is missed -/

/-- What was found covers what is new: whoever has a line now and did not have it before. -/
structure Table.Catch (now before found : Option Table) : Prop where
  layout : now.map Table.layout = before.map Table.layout
  new : ∀ {l : List Term} {t : Term}, l.head? = some t → HasLine now l → ¬HasLine before l →
    Reports found t

/-- The view looks at the targets of `T` that were not targets before or whose values have
changed, and at no others than those of `T`. -/
structure View.Follows (view : View) (T : Finset Term) (before : Store) (T₀ : Finset Term) :
    Prop where
  seen : ∀ path, view.targets path ⊆ T
  unseen : ∀ {path t}, t ∈ T → t ∉ view.targets path →
    t ∈ T₀ ∧ ∀ p, path = some p → view.graph.linked p t = before.linked p t

namespace Table

/-- A line that is new after cutting comes from a line that is new. -/
theorem exists_new_line {layout : Layout} {x x₀ : Table} {l : List Term}
    (h : l ∈ x.linesAs layout) (h₀ : l ∉ x₀.linesAs layout) :
    ∃ l' ∈ x.lines, l' ∉ x₀.lines ∧ l'.head? = l.head? := by
  cases layout with
  | tripleBased => exact ⟨l, h, h₀, rfl⟩
  | aggregated =>
    obtain ⟨l', hl', rfl⟩ := Finset.mem_image.1 h
    exact ⟨l', hl', fun hm => h₀ (Finset.mem_image_of_mem _ hm), (head?_take_one l').symm⟩

/-- Where there is a table now there was one before, in the same layout. -/
theorem Catch.of_eq_some {now before found : Option Table} (h : Catch now before found)
    {x : Table} (hx : now = some x) : ∃ x₀, before = some x₀ ∧ x.layout = x₀.layout := by
  have hl := h.layout
  rw [hx, Option.map_some] at hl
  obtain ⟨x₀, hx₀, hl⟩ := Option.map_eq_some_iff.1 hl.symm
  exact ⟨x₀, hx₀, hl.symm⟩

/-- What is new after cutting is found. -/
theorem Catch.new_linesAs {now before found : Option Table} (h : Catch now before found)
    {x x₀ : Table} (hx : now = some x) (hx₀ : before = some x₀) {layout : Layout} {l : List Term}
    {t : Term} (ht : l.head? = some t) (hl : l ∈ x.linesAs layout)
    (hl₀ : l ∉ x₀.linesAs layout) : Reports found t := by
  obtain ⟨l', hl', hl₀', hhead⟩ := exists_new_line hl hl₀
  refine h.new (hhead.trans ht) ⟨x, hx, hl'⟩ ?_
  intro hex
  obtain ⟨y, hy, hly⟩ := hex
  rw [hx₀] at hy
  exact hl₀' (Option.some.inj hy ▸ hly)

end Table

namespace Piece

variable {G G₀ : Store} {T T₀ : Finset Term}

/-- The tables of pieces have the layouts that they had before. -/
theorem layouts_tablesOf {pieces : List Piece}
    (h : ∀ p ∈ pieces, (p.among G T).map Table.layout = (p.among G₀ T₀).map Table.layout) :
    (Table.tablesOf (pieces.map (partAmong G T))).map Table.layout =
      (Table.tablesOf (pieces.map (partAmong G₀ T₀))).map Table.layout := by
  unfold Table.tablesOf
  rw [List.filterMap_map, List.filterMap_map, List.map_filterMap, List.map_filterMap]
  exact List.filterMap_congr fun p hp => h p hp

/-- The same pieces with a table set a path of their own. -/
theorem ownPathOf_partAmong {pieces : List Piece}
    (h : ∀ p ∈ pieces, (p.among G T).map Table.layout = (p.among G₀ T₀).map Table.layout) :
    Table.ownPathOf (pieces.map (partAmong G T)) =
      Table.ownPathOf (pieces.map (partAmong G₀ T₀)) := by
  unfold Table.ownPathOf
  rw [List.any_map, List.any_map, Bool.eq_iff_iff, List.any_eq_true, List.any_eq_true]
  refine exists_congr fun p => and_congr_right fun hp => ?_
  have hsome := congrArg Option.isSome (h p hp)
  rw [Option.isSome_map, Option.isSome_map] at hsome
  show ((p.among G T).isSome && p.ownPath) = true ↔ ((p.among G₀ T₀).isSome && p.ownPath) = true
  rw [hsome]

/-- The layout of a union depends on the layouts only. -/
theorem union_layout {ownPath : Bool} {a b : List Table}
    (h : a.map Table.layout = b.map Table.layout) :
    (Table.union ownPath a).map Table.layout = (Table.union ownPath b).map Table.layout := by
  have hc := Table.commonLayout_congr h ownPath
  cases a <;> cases b
  · rfl
  · cases h
  · cases h
  · exact congrArg some hc

/-- A conjunction finds what is new in it if the members find what is new in them. -/
theorem catch_conjoin {pieces : List Piece}
    (h : ∀ p ∈ pieces, Table.Catch (p.among G T) (p.among G₀ T₀) p.touchedPart.table) :
    Table.Catch (unite (pieces.map (partAmong G T))) (unite (pieces.map (partAmong G₀ T₀)))
      (View.conjoin pieces) := by
  have hlayouts := layouts_tablesOf fun p hp => (h p hp).layout
  have hown := ownPathOf_partAmong fun p hp => (h p hp).layout
  refine ⟨by rw [unite, unite, hown]; exact union_layout hlayouts, fun {l t} ht hl hl₀ => ?_⟩
  -- the line is a member's, and new for the member: otherwise the whole had it before
  obtain ⟨q, hq, x, hqx, hlx⟩ := Table.hasLine_unite.1 hl
  obtain ⟨p, hp, rfl⟩ := List.mem_map.1 hq
  obtain ⟨x₀, hx₀, -⟩ := (h p hp).of_eq_some hqx
  refine reports_conjoin.2 ⟨p, hp, (h p hp).new_linesAs hqx hx₀ ht hlx fun hlx₀ => hl₀ ?_⟩
  rw [Table.commonLayout_congr hlayouts, hown] at hlx₀
  exact Table.hasLine_unite.2 ⟨_, List.mem_map_of_mem hp, x₀, hx₀, hlx₀⟩

/-- The tables of branches have the layouts that they had before. -/
theorem layouts_branches {branches : List (List Piece)}
    (h : ∀ b ∈ branches, (unite (b.map (partAmong G T))).map Table.layout =
      (unite (b.map (partAmong G₀ T₀))).map Table.layout) :
    ((branchesAmong G T branches).filterMap unite).map Table.layout =
      ((branchesAmong G₀ T₀ branches).filterMap unite).map Table.layout := by
  unfold branchesAmong
  rw [List.filterMap_map, List.filterMap_map, List.map_filterMap, List.map_filterMap]
  exact List.filterMap_congr fun b hb => h b hb

/-- Which pieces of branches set a path does not depend on the targets. -/
theorem any_ownPath_branchesAmong (G : Store) (T : Finset Term) (branches : List (List Piece)) :
    ((branchesAmong G T branches).any fun b => b.any Table.Part.ownPath) =
      branches.any fun b => b.any Piece.ownPath := by
  rw [branchesAmong, List.any_map]
  refine congrArg branches.any (funext fun b => ?_)
  rw [Function.comp, List.any_map]
  rfl

/-- The layout of an intersection depends on the layouts only. -/
theorem intersection_layout {ownPath : Bool} {a b : List Table}
    (h : a.map Table.layout = b.map Table.layout) :
    (Table.intersection ownPath a).map Table.layout =
      (Table.intersection ownPath b).map Table.layout := by
  have hc := Table.commonLayout_congr h ownPath
  cases a <;> cases b
  · rfl
  · cases h
  · cases h
  · exact congrArg some hc

end Piece

namespace View

variable {view : View} {G₀ : Store} {T T₀ : Finset Term}

/-- A new line of all branches is new in one of them, so its target is a candidate; and the
branches are judged for the candidates as for all targets. -/
theorem catch_intersectBranches (hr : view.restricted = true) {branches : List (List Piece)}
    (hsound : ∀ b ∈ branches, ∀ p ∈ b, p.Sound view.graph T)
    (h : ∀ b ∈ branches, ∀ p ∈ b,
      Table.Catch (p.among view.graph T) (p.among G₀ T₀) p.touchedPart.table) :
    Table.Catch (intersect (Piece.branchesAmong view.graph T branches))
      (intersect (Piece.branchesAmong G₀ T₀ branches)) (view.intersectBranches branches) := by
  have hbranch := fun b hb => Piece.catch_conjoin (h b hb)
  have hlayouts := Piece.layouts_branches fun b hb => (hbranch b hb).layout
  have hown := (Piece.any_ownPath_branchesAmong view.graph T branches).trans
    (Piece.any_ownPath_branchesAmong G₀ T₀ branches).symm
  refine ⟨by rw [intersect, intersect, hown]; exact Piece.intersection_layout hlayouts,
    fun {l t} ht hl hl₀ => ?_⟩
  obtain ⟨hne, hall⟩ := Table.hasLine_intersection.1 hl
  have hcandidate : t ∈ Table.targetsOf (Piece.candidates branches) := by
    rw [intersect, Table.hasLine_intersection, ← Table.commonLayout_congr hlayouts, ← hown] at hl₀
    have hne₀ : (Piece.branchesAmong G₀ T₀ branches).filterMap unite ≠ [] := fun hnil => by
      rw [hnil, List.map_nil, List.map_eq_nil_iff] at hlayouts
      exact hne hlayouts
    -- some branch does not have the line before
    obtain ⟨x₀, hx₀, hlx₀⟩ : ∃ x₀ ∈ (Piece.branchesAmong G₀ T₀ branches).filterMap unite,
        l ∉ x₀.linesAs (commonLayout ((Piece.branchesAmong view.graph T branches).filterMap unite)
          ((Piece.branchesAmong view.graph T branches).any fun b => b.any Table.Part.ownPath)) := by
      by_contra hno
      push Not at hno
      exact hl₀ ⟨hne₀, hno⟩
    obtain ⟨parts, hparts, hbx₀⟩ := List.mem_filterMap.1 hx₀
    obtain ⟨b, hb, rfl⟩ := List.mem_map.1 hparts
    have hl' := (hbranch b hb).layout
    rw [hbx₀, Option.map_some] at hl'
    obtain ⟨x, hbx, -⟩ := Option.map_eq_some_iff.1 hl'
    refine Piece.mem_targetsOf_candidates.2
      ⟨b, hb, (hbranch b hb).new_linesAs hbx hbx₀ ht (hall x ?_) hlx₀⟩
    exact List.mem_filterMap.2 ⟨_, List.mem_map_of_mem hb, hbx⟩
  unfold intersectBranches
  rw [if_pos hr]
  split
  · next hnil =>
    rw [hnil] at hcandidate
    exact absurd hcandidate (Finset.notMem_empty t)
  · -- every branch is judged in full for the candidate
    rw [Piece.branchesAmong_restrict (Piece.candidates_subset hsound), Table.intersect_restrict,
      Table.reports_restrict]
    exact ⟨Table.reports_iff.2 ⟨l, hl, ht⟩, hcandidate⟩

/-- A disjunction catches new lines if its pieces do. -/
theorem catch_disjoin (hr : view.restricted = true) {branches : List (List Piece)}
    (hsound : ∀ b ∈ branches, ∀ p ∈ b, p.Sound view.graph T)
    (h : ∀ b ∈ branches, ∀ p ∈ b,
      Table.Catch (p.among view.graph T) (p.among G₀ T₀) p.touchedPart.table) :
    Table.Catch (Table.disjoin (Piece.branchesAmong view.graph T branches))
      (Table.disjoin (Piece.branchesAmong G₀ T₀ branches)) (view.disjoin branches) := by
  rcases Table.single_or branches with ⟨p, rfl⟩ | hs
  · have hp := h _ (List.mem_singleton.2 rfl) p (List.mem_singleton.2 rfl)
    exact ⟨hp.layout, fun ht hl hl₀ => Piece.reports_touchedPart (hp.new ht hl hl₀)⟩
  · rw [disjoin_eq_intersectBranches hs, Piece.disjoin_branchesAmong hs,
      Piece.disjoin_branchesAmong hs]
    exact catch_intersectBranches hr hsound h

end View

/-- What the pass finds out about a member covers what is new, and it finds nothing out about a
member that it passes over. -/
structure Piece.Covers (G G₀ : Store) (T T₀ : Finset Term) (p : Piece) : Prop where
  sound : p.Sound G T
  catches : Table.Catch (p.among G T) (p.among G₀ T₀) p.found
  idle : p.touched = false → Bare p.found

/-- A piece that is passed over has no new line to catch. -/
theorem Piece.Covers.touchedPart {G G₀ : Store} {T T₀ : Finset Term} {p : Piece}
    (h : p.Covers G G₀ T T₀) :
    Table.Catch (p.among G T) (p.among G₀ T₀) p.touchedPart.table := by
  refine ⟨h.catches.layout, fun {l t} ht hl hl₀ => ?_⟩
  have hfound := h.catches.new ht hl hl₀
  show Reports (if p.touched then p.found else none) t
  cases htouched : p.touched with
  | true => exact hfound
  | false => exact absurd hfound ((h.idle htouched).not_reports t)

/-- A line about a target that the pass does not look at was there before. -/
theorem Constraint.catch_table {view : View} {G₀ : Store} {T T₀ : Finset Term}
    (hf : view.Follows T G₀ T₀) (path : Option Path) (negate : Bool) (c : Constraint) :
    Table.Catch (some (c.table view.graph T path negate)) (some (c.table G₀ T₀ path negate))
      (some (c.table view.graph (view.targets path) path negate)) := by
  refine ⟨rfl, fun {l t} ht hl hl₀ => ?_⟩
  obtain ⟨x, hx, hlx⟩ := hl
  obtain rfl := Option.some.inj hx
  obtain ⟨hT, hline⟩ := (mem_table ht).1 hlx
  -- a target that is not looked at was a target before, and has the values that it had
  by_cases hseen : t ∈ view.targets path
  · exact ⟨_, rfl, l, (mem_table ht).2 ⟨hseen, hline⟩, ht⟩
  · obtain ⟨hT₀, hlinked⟩ := hf.unseen hT hseen
    rw [linesAt_congr hlinked] at hline
    exact absurd ⟨_, rfl, (mem_table ht).2 ⟨hT₀, hline⟩⟩ hl₀

/-- The one induction behind both facts. -/
theorem Shape.covers_piece {view : View} {G₀ : Store} {T T₀ : Finset Term}
    (hr : view.restricted = true) (hf : view.Follows T G₀ T₀) (s : Shape) (path : Option Path)
    (negate : Bool) : (s.piece view path negate).Covers view.graph G₀ T T₀ := by
  refine piece_induction view (P := Piece.Covers view.graph G₀ T T₀)
    ?_ ?_ ?_ ?_ s path negate
  · intro p hfound hamong
    refine ⟨fun t ht => ?_, ?_, fun _ => by rw [hfound]; exact Table.bare_none⟩
    · rw [hfound] at ht
      exact absurd ht Table.not_reports_none
    · rw [hamong, hamong]
      exact ⟨rfl, fun _ hl => absurd hl Table.not_hasLine_none⟩
  · -- a constraint: the view sees nothing where the delta does not bear
    intro p c path negate hfound hamong htouched
    refine ⟨fun t ht => ?_, ?_, fun ht => ?_⟩
    · rw [hfound, Constraint.table_restrict (hf.seen path), ← Option.map_some,
        Table.reports_restrict] at ht
      rw [hamong]
      exact ht.1
    · rw [hamong, hamong, hfound]
      exact c.catch_table hf path negate
    · rw [hfound, view.idle path (htouched ▸ ht)]
      exact fun _ h => Option.some.inj h ▸ rfl
  · rintro p members hmembers ⟨hfound, hamong, htouched⟩
    refine ⟨fun t ht => ?_, ?_, fun ht => ?_⟩
    · rw [hfound] at ht
      rw [hamong]
      exact View.conjoin_sound (fun m hm => (hmembers m hm).sound) ht
    · rw [hamong, hamong, hfound]
      exact Piece.catch_conjoin fun m hm => (hmembers m hm).touchedPart
    · rw [hfound]
      exact View.bare_conjoin fun m hm => (hmembers m hm).idle (htouched ht m hm)
  · rintro p branches hbranches ⟨hfound, hamong, htouched⟩
    have hsound := fun b hb m hm => (hbranches b hb m hm).sound
    refine ⟨fun t ht => ?_, ?_, fun ht => ?_⟩
    · rw [hfound] at ht
      rw [hamong]
      exact View.disjoin_sound hr hsound ht
    · rw [hamong, hamong, hfound]
      exact View.catch_disjoin hr hsound fun b hb m hm => (hbranches b hb m hm).touchedPart
    · rw [hfound]
      exact View.bare_disjoin fun b hb m hm => (hbranches b hb m hm).idle (htouched ht b hb m hm)

/-! ## Passes that do not look for candidates -/

/-- The view sees the same targets everywhere and everything is touched, or it sees no targets. -/
def View.Even (view : View) : Prop :=
  (∃ X, (∀ path, view.targets path = X) ∧ ∀ path, view.bears path = true) ∨
    ∀ path, view.targets path = ∅

/-- The view with candidates. -/
def View.restrict (view : View) : View := { view with restricted := true }

/-- Such a view reports the same targets with and without candidates. -/
theorem View.Even.reports_iff {view : View} (h : view.Even) (s : Shape) (path : Option Path)
    (negate : Bool) (t : Term) :
    Reports (s.changes view path negate) t ↔ Reports (s.changes view.restrict path negate) t := by
  rcases h with ⟨X, htargets, hbears⟩ | hnone
  · have htargets' : ∀ path, view.restrict.targets path = X := htargets
    have hbears' : ∀ path, view.restrict.bears path = true := hbears
    rw [Shape.changes_uniform htargets hbears, Shape.changes_uniform htargets' hbears']
    rfl
  · have hbare := (Shape.bare_changes view s path negate (.inr hnone)).not_reports t
    have hbare' := (Shape.bare_changes view.restrict s path negate (.inr hnone)).not_reports t
    exact ⟨fun h => absurd h hbare, fun h => absurd h hbare'⟩

/-- A pass that sees all targets or none reports the same with candidates and without. -/
theorem View.reports_restrict_iff {view : View} (h : view.restricted = true ∨ view.Even) (s : Shape)
    (path : Option Path) (negate : Bool) (t : Term) :
    Reports (s.changes view path negate) t ↔ Reports (s.changes view.restrict path negate) t := by
  rcases h with hr | heven
  · have heq : view.restrict = view := by
      obtain ⟨graph, targets, bears, restricted, idle⟩ := view
      obtain rfl : restricted = true := hr
      rfl
    rw [heq]
  · exact heven.reports_iff s path negate t

namespace Shape

variable {view : View} {T : Finset Term} {s : Shape} {path : Option Path} {negate : Bool} {t : Term}

/-- Every target that a pass reports for a shape is reported by the shape. -/
theorem reports_rows_of_changes (hv : view.restricted = true ∨ view.Even)
    (hT : ∀ path, view.targets path ⊆ T) (h : Reports (s.changes view path negate) t) :
    Reports (s.rows view.graph T path negate) t := by
  -- nothing is new with respect to the data itself
  have hf : view.restrict.Follows T view.graph T := ⟨hT, fun ht _ => ⟨ht, fun _ _ => rfl⟩⟩
  exact (covers_piece rfl hf s path negate).sound t
    ((View.reports_restrict_iff hv s path negate t).1 h)

/-- Nothing new is missed: if the shape reports a target now that it did not report before, the
pass reports it. -/
theorem reports_changes_of_new {G₀ : Store} {T₀ : Finset Term}
    (hv : view.restricted = true ∨ view.Even) (hf : view.Follows T G₀ T₀)
    (h : Reports (s.rows view.graph T path negate) t)
    (h₀ : ¬Reports (s.rows G₀ T₀ path negate) t) : Reports (s.changes view path negate) t := by
  have hf : view.restrict.Follows T G₀ T₀ := ⟨hf.seen, hf.unseen⟩
  obtain ⟨l, hl, ht⟩ := Table.reports_iff.1 h
  refine (View.reports_restrict_iff hv s path negate t).2 ?_
  exact (covers_piece rfl hf s path negate).catches.new ht hl fun hl₀ =>
    h₀ (Table.reports_iff.2 ⟨l, hl₀, ht⟩)

end Shape

end GraphShapes
