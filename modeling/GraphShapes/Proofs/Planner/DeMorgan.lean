import GraphShapes.Proofs.Meaning.Incremental
import GraphShapes.Proofs.Planner.Pointwise

/-!
# A negated disjunction and a conjunction of negations

A negated disjunction is planned as a conjunction of negated branches, and a conjunction of
negations plans each negation by itself. Where every branch is a single shape, the two find the same
targets (`Shape.collect_neg_disj_eq_conj_neg`): in any pass that does not fail, for given targets
too, and whichever of the shapes are switched off.

The lines need not be the same. A negation sets no path, so it hides that the shape below it sets
one, and a conjunction of negations may keep columns that a negated disjunction cuts. And a negation
is touched already where the path above it is: the conjunction may plan members that the disjunction
passes over. But these report nothing (`Shape.bare_changes`), so both come to the targets that one
of the negated shapes reports.
-/

namespace GraphShapes

namespace View

variable {view : View} {pieces : List Piece} {t : Term}

/-- If what is passed over reports nothing, a conjunction reports what its members report. -/
theorem reports_conjoin_of_idle (h : ∀ p ∈ pieces, p.touched = false → Table.Bare p.found) :
    Table.Reports (conjoin pieces) t ↔ ∃ p ∈ pieces, Table.Reports p.found t := by
  rw [Piece.reports_conjoin]
  refine exists_congr fun p => and_congr_right fun hp => ?_
  cases ht : p.touched with
  | true => rw [Piece.touchedPart, ht, if_pos rfl]
  | false =>
    rw [Piece.touchedPart_eq_none (.inl ht)]
    exact iff_of_false Table.not_reports_none ((h p hp ht).not_reports t)

end View

namespace Shape

section Reports

variable {view : View} {h : ShapeHead} (hd : h.deactivated = false) {path : Option Path} {t : Term}
include hd

/-- A conjunction reports what its members report. -/
theorem reports_conj_changes (ms : List Shape) :
    Table.Reports ((conj h ms).changes view path false) t ↔
      ∃ m ∈ ms, Table.Reports (m.changes view (h.path.or path) false) t := by
  have hchanges : (conj h ms).changes view path false =
      View.conjoin (ms.map (piece view (h.path.or path) false)) := by
    rw [changes, hd, ← pieces_eq_map]
    rfl
  have hidle : ∀ p ∈ ms.map (piece view (h.path.or path) false),
      p.touched = false → Table.Bare p.found := by
    intro p hp ht
    obtain ⟨m, -, rfl⟩ := List.mem_map.1 hp
    exact bare_changes view m _ false (.inl ht)
  rw [hchanges, View.reports_conjoin_of_idle hidle]
  simp only [List.mem_map, exists_exists_and_eq_and]
  exact Iff.rfl

/-- A negated disjunction of single shapes reports what their negations report. -/
theorem reports_neg_disj_changes (ms : List Shape) :
    Table.Reports ((disj h (ms.map fun m => [m])).changes view path true) t ↔
      ∃ m ∈ ms, Table.Reports (m.changes view (h.path.or path) true) t := by
  have hchanges : (disj h (ms.map fun m => [m])).changes view path true =
      View.conjoin (ms.map fun m => view.negatedBranch [m.piece view (h.path.or path) true]) := by
    rw [changes, hd, branchPieces_eq_map, List.map_map, List.map_map]
    rfl
  have hidle : ∀ p ∈ ms.map fun m => view.negatedBranch [m.piece view (h.path.or path) true],
      p.touched = false → Table.Bare p.found := by
    intro p hp ht
    obtain ⟨m, -, rfl⟩ := List.mem_map.1 hp
    -- the negation of a branch with a single member is touched where this member is
    have htouched : m.touches view.bears (h.path.or path) = false :=
      (Bool.or_false _).symm.trans ht
    exact bare_changes view m _ true (.inl htouched)
  rw [hchanges, View.reports_conjoin_of_idle hidle]
  simp only [List.mem_map, exists_exists_and_eq_and]
  exact Iff.rfl

end Reports

/-- A negation that sets no path reports the negation of what is below it. -/
theorem changes_neg_plain (view : View) (id : ShapeId) (s : Shape) (path : Option Path)
    (negate : Bool) :
    (neg { id := id } s).changes view path negate = s.changes view path (!negate) := by
  rw [changes]
  rfl

section Both

variable {h : ShapeHead} {ss : List (ShapeId × Shape)}

/-- The disjunction of shapes, each of them a branch. -/
abbrev disjOf (h : ShapeHead) (ss : List (ShapeId × Shape)) : Shape :=
  disj h (ss.map fun p => [p.2])

/-- The conjunction of the negations of shapes. A negation has an identifier and no path. -/
abbrev conjOfNegations (h : ShapeHead) (ss : List (ShapeId × Shape)) : Shape :=
  conj h (ss.map fun p => neg { id := p.1 } p.2)

theorem wellFormed_disjOf (hne : ss ≠ []) (hw : ∀ p ∈ ss, p.2.wellFormed = true) :
    (disjOf h ss).wellFormed = true := by
  cases hd : h.deactivated with
  | true => exact wellFormed_of_deactivated hd
  | false =>
    refine (wellFormed_disj_iff hd).2 ⟨mt List.map_eq_nil_iff.1 hne, fun b hb => ?_⟩
    obtain ⟨p, hp, rfl⟩ := List.mem_map.1 hb
    exact ⟨List.cons_ne_nil _ _, fun m hm => List.mem_singleton.1 hm ▸ hw p hp⟩

theorem wellFormed_conjOfNegations (hne : ss ≠ []) (hw : ∀ p ∈ ss, p.2.wellFormed = true) :
    (conjOfNegations h ss).wellFormed = true := by
  cases hd : h.deactivated with
  | true => exact wellFormed_of_deactivated hd
  | false =>
    refine (wellFormed_conj_iff hd).2 ⟨mt List.map_eq_nil_iff.1 hne, fun m hm => ?_⟩
    obtain ⟨p, hp, rfl⟩ := List.mem_map.1 hm
    exact (wellFormed_neg_iff rfl).2 (hw p hp)

/-- To every view, both report the targets that the negation of one of the shapes reports. -/
theorem reported_disjOf (view : View) {h h' : ShapeHead} (hpath : h.path = h'.path)
    (hoff : h.deactivated = h'.deactivated) (ss : List (ShapeId × Shape)) (path : Option Path) :
    Table.reported ((disjOf h ss).changes view path true) =
      Table.reported ((conjOfNegations h' ss).changes view path false) := by
  cases hd : h.deactivated with
  | true =>
    -- there is no table for either
    rw [disjOf, conjOfNegations, changes, changes, if_pos hd, if_pos (hoff ▸ hd)]
  | false =>
    refine Finset.ext fun t => ?_
    have hbranches : (ss.map fun p => [p.2]) = (ss.map Prod.snd).map fun m => [m] := by
      rw [List.map_map]
      rfl
    rw [Table.mem_reported, Table.mem_reported, disjOf, hbranches, reports_neg_disj_changes hd,
      reports_conj_changes (hoff ▸ hd), hpath]
    simp only [List.mem_map, exists_exists_and_eq_and, changes_neg_plain, Bool.not_false]

end Both

variable {ctx : Context}

/-- Whatever targets a shape is planned for, some view sees what comes. -/
theorem exists_view (hr : ctx.Reliable) (frame : Frame) {draft : Draft}
    {targets : Option Provider}
    (hgiven : ∀ provider ∈ targets, ∃ rows, provider.HandsOut draft.splitters rows) :
    ∃ view : View, ∀ s : Shape, s.wellFormed = true → ∀ negate,
      ∃ rows, s.collect ctx frame targets negate draft = .ok rows ∧ Row.Strict rows ∧
        Row.lines rows = Table.linesOf (s.changes view frame.path negate) := by
  cases targets with
  | none =>
    refine ⟨ctx.view frame.targets hr, fun s hw negate => ?_⟩
    exact collect_of_gives .none (s.realizes hr frame.targets hw frame.path negate).found
  | some provider =>
    obtain ⟨handed, hhanded⟩ := hgiven provider rfl
    obtain ⟨q, hmirrors, hlists⟩ := hhanded.exists_mirrors
    refine ⟨.everywhere ctx.source.store (handed.map Row.target).toFinset, fun s hw negate => ?_⟩
    rw [changes_everywhere]
    exact collect_of_gives (.some hmirrors) (gives_among hr.source hlists s hw frame negate)

/-- The negation of a disjunction of shapes comes to the same targets as the conjunction of their
negations, if both set the same path. Without a plan, there are no targets. -/
theorem collect_neg_disj_eq_conj_neg (hr : ctx.Reliable) {h h' : ShapeHead}
    (hpath : h.path = h'.path) (hoff : h.deactivated = h'.deactivated)
    {ss : List (ShapeId × Shape)} (hne : ss ≠ []) (hw : ∀ p ∈ ss, p.2.wellFormed = true)
    (frame : Frame) {draft : Draft} {targets : Option Provider}
    (hgiven : ∀ provider ∈ targets, ∃ rows, provider.HandsOut draft.splitters rows) :
    ∃ rows rows',
      (disjOf h ss).collect ctx frame targets true draft = .ok rows ∧
      (conjOfNegations h' ss).collect ctx frame targets false draft = .ok rows' ∧
      (rows.map Row.target).toFinset = (rows'.map Row.target).toFinset := by
  obtain ⟨view, hview⟩ := exists_view hr frame hgiven
  obtain ⟨rows, hrows, -, hlines⟩ := hview (disjOf h ss) (wellFormed_disjOf hne hw) true
  obtain ⟨rows', hrows', -, hlines'⟩ :=
    hview (conjOfNegations h' ss) (wellFormed_conjOfNegations hne hw) false
  refine ⟨rows, rows', hrows, hrows', ?_⟩
  rw [Row.targets_eq_reported hlines, Row.targets_eq_reported hlines']
  exact reported_disjOf view hpath hoff ss frame.path

/-- Some value is not a number, or a demand that is switched off. -/
def someOtherThanNumber : List (ShapeId × Shape) :=
  [(⟨31⟩,
      .neg { id := ⟨21⟩, path := valuesHead.path } (.constraint { id := ⟨22⟩ } (.datatype .int))),
    (⟨32⟩, .constraint { id := ⟨23⟩, deactivated := true } (.maxCount 1))]

/-- For two given targets, one is found by both, through a text among its values. The negation hides
the path that is set below it, so only the conjunction of negations tells which value it is. -/
theorem collect_neg_disj_eq_conj_neg_given :
    let ctx : Context :=
      { source := .ofStore mixedValues, delta := some ⟨.ofStore .empty, .ofStore .empty⟩ }
    let frame : Frame := ⟨[.subjectsOf (.iri "p")], none⟩
    let given : Provider := .external (.ok (.values repeatedTargets .aggregated))
    let st : Statement := ⟨.iri "a", .iri "p", .str "x"⟩
    ∃ rows rows',
      (disjOf { id := ⟨1⟩ } someOtherThanNumber).collect ctx frame (some given) true {} = .ok rows ∧
      (conjOfNegations { id := ⟨2⟩ } someOtherThanNumber).collect ctx frame (some given) false {} =
        .ok rows' ∧
      (rows.map Row.target).toFinset = (rows'.map Row.target).toFinset ∧
      rows.map Row.line = [[.iri "a"]] ∧
      rows'.map Row.line = [[.iri "a", .str "x", st.quoted]] := by
  intro ctx frame given st
  have hr : ctx.Reliable := by
    refine ⟨Source.reliable_ofStore _, fun delta hd => ?_⟩
    obtain rfl := Option.some.inj hd
    exact ⟨Source.reliable_ofStore _, Source.reliable_ofStore _⟩
  have hgiven : given.HandsOut #[] repeatedTargets := Provider.handsOut_values #[] _ _
  obtain ⟨rows, rows', hrows, hrows', hsame⟩ := @collect_neg_disj_eq_conj_neg ctx hr { id := ⟨1⟩ }
    { id := ⟨2⟩ } rfl rfl someOtherThanNumber (List.cons_ne_nil _ _) (by decide) frame {}
    (some given) fun provider hp => ⟨repeatedTargets, Option.some.inj hp ▸ hgiven⟩
  -- what the shape tree says about the given targets is a single line
  have hline : ∀ (layout : Layout) {s : Shape} {negate : Bool} {line : List Term} {rows : List Row},
      s.wellFormed = true →
      s.rows mixedValues (repeatedTargets.map Row.target).toFinset none negate =
        some ⟨layout, {line}⟩ →
      s.collect ctx frame (some given) negate {} = .ok rows → rows.map Row.line = [line] := by
    intro layout s negate line rows hw htable hrows
    have hlines : s.collectLines ctx frame (some given) negate {} = .ok [line] := by
      refine collectLines_among rfl hw frame negate hgiven (List.pairwise_singleton _ _) fun l => ?_
      rw [htable, ← Table.mem_linesOf]
      exact List.mem_singleton.trans Finset.mem_singleton.symm
    rw [collectLines, hrows] at hlines
    exact Except.ok.inj hlines
  exact ⟨rows, rows', hrows, hrows', hsame, hline .aggregated (by decide) (by decide) hrows,
    hline .tripleBased (by decide) (by decide) hrows'⟩

end Shape

end GraphShapes
