import GraphShapes.Proofs.Planner.Delivery
import GraphShapes.Proofs.Planner.View

/-!
# What the plans of constraints deliver

The targets of a leaf are distinct targets in ascending order, wherever they come from
(`delivers_scan`, `delivers_focus`). From such targets, the plan of a constraint delivers exactly
the lines that the constraint has about them (`shows_violations`), and that of a negated constraint
the targets about which there is no such line (`shows_satisfactions`).

The values of a target come in ascending order because the statements that link it to them do
(`Store.pairwise_linked`); so the lines of a target ascend, and with the targets all lines do.
-/

namespace GraphShapes

/-- Along a path, the statements of a target ascend by the value. -/
theorem Store.pairwise_linked (G : Store) (p : Path) (t : Term) :
    (G.linked p t).Pairwise fun a b => (p.valueOf a).compare (p.valueOf b) = .lt := by
  refine List.Pairwise.imp_of_mem (fun {a b} ha hb hab => ?_)
    (List.Pairwise.filter (p.links t) G.ascending)
  obtain ⟨hpa, hfa⟩ := Path.links_iff.1 (List.mem_filter.1 ha).2
  obtain ⟨hpb, hfb⟩ := Path.links_iff.1 (List.mem_filter.1 hb).2
  have hab : (a.subject.compare b.subject).then ((a.predicate.compare b.predicate).then
      (a.object.compare b.object)) = .lt := hab
  rw [hpa, hpb, Term.compare_self] at hab
  -- the target stands at one end of both statements, so the other end decides
  cases p with
  | predicate r =>
    have hs : a.subject = b.subject := hfa.trans hfb.symm
    rw [hs, Term.compare_self] at hab
    exact hab
  | inverse r =>
    have ho : a.object = b.object := hfa.trans hfb.symm
    rw [ho, Term.compare_self] at hab
    show a.subject.compare b.subject = .lt
    cases hc : a.subject.compare b.subject <;> rw [hc] at hab <;> first | rfl | cases hab

namespace Row

/-- Lines about a smaller target come first. -/
theorem compare_of_target_lt {a b : Row} (h : a.target.compare b.target = .lt) :
    Row.compare a b = .lt := by
  show compareLines (a.target :: a.others) (b.target :: b.others) = .lt
  rw [compareLines_cons, h]
  rfl

end Row

/-! ## Values -/

/-- The rows of a target along a path. -/
def valueRows (G : Store) (path : Option Path) (row : Row) : List Row :=
  match path with
  | none => [(row.trim 1).withValue row.target]
  | some p => (G.linked p row.target).map fun st =>
      { Row.ofStatement row.target (p.valueOf st) st with scope := row.scope }

section Values

variable {source : Source} {G : Store} {path : Option Path} {rows : List Row}

theorem rowsOf_eq_ok (h : source.Reliable) (path : Option Path) (row : Row) :
    Path.rowsOf source path row = .ok (valueRows source.store path row) := by
  cases path with
  | none => rfl
  | some p =>
    rw [Path.rowsOf, h.hits, Store.scan_pattern]
    rfl

theorem target_of_mem_valueRows {row x : Row} (h : x ∈ valueRows G path row) :
    x.target = row.target := by
  unfold valueRows at h
  split at h
  · rw [List.mem_singleton.1 h]
    rfl
  · obtain ⟨st, -, rfl⟩ := List.mem_map.1 h
    rfl

theorem strict_valueRows (G : Store) (path : Option Path) (row : Row) :
    Row.Strict (valueRows G path row) := by
  unfold valueRows
  split
  · exact List.pairwise_singleton _ _
  · next p =>
    refine List.Pairwise.map _ (fun a b hab => ?_) (G.pairwise_linked p row.target)
    show Row.compareLines (row.target :: p.valueOf a :: _) (row.target :: p.valueOf b :: _) = .lt
    rw [Row.compareLines_cons, Row.compareLines_cons, Term.compare_self, hab]
    rfl

theorem strict_flatMap_valueRows (G : Store) (path : Option Path)
    (h : rows.Pairwise fun a b => a.target.compare b.target = .lt) :
    Row.Strict (rows.flatMap (valueRows G path)) := by
  refine List.pairwise_flatMap.2 ⟨fun row _ => strict_valueRows G path row, h.imp ?_⟩
  intro a b hab x hx y hy
  refine Row.compare_of_target_lt ?_
  rw [target_of_mem_valueRows hx, target_of_mem_valueRows hy]
  exact hab

theorem Plan.Lists.valuesOf {q : Plan} (hq : q.Lists rows) (h : source.Reliable)
    (path : Option Path) :
    (Plan.valuesOf q source path).Lists (rows.flatMap (valueRows source.store path)) := by
  unfold Plan.Lists Plan.delivery
  rw [Plan.meaning, hq.meaning_eq]
  exact congrArg Except.ok (Feed.expand_ofList fun row _ => rowsOf_eq_ok h path row)

/-- The values found for a target are the values of that target. -/
theorem valuesFor_flatMap (G : Store) (path : Option Path) : ∀ {rows : List Row},
    (rows.Pairwise fun a b => a.target.compare b.target = .lt) → ∀ r ∈ rows,
      RowFeed.valuesFor r.target (rows.flatMap (valueRows G path)) = G.valuesOf path r.target
  | row :: rows, h, r, hr => by
    obtain ⟨hrow, hrows⟩ := List.pairwise_cons.1 h
    rw [List.flatMap_cons]
    by_cases he : row.target = r.target
    · -- the values stand in front, and all later rows are about larger targets
      have hnone : RowFeed.valuesFor r.target (rows.flatMap (valueRows G path)) = [] := by
        rw [RowFeed.valuesFor, List.filter_eq_nil_iff.2 fun x hx => ?_]
        · rfl
        · obtain ⟨b, hb, hx⟩ := List.mem_flatMap.1 hx
          have hlt := hrow b hb
          rw [he] at hlt
          rw [target_of_mem_valueRows hx]
          simpa using (RowFeed.target_ne_of_lt hlt).symm
      have hall : RowFeed.valuesFor r.target (valueRows G path row) = G.valuesOf path r.target := by
        rw [RowFeed.valuesFor, List.filter_eq_self.2 fun x hx => by
          simpa using (target_of_mem_valueRows hx).trans he, ← he]
        cases path with
        | none => rfl
        | some p =>
          rw [valueRows, List.filterMap_map, Store.valuesOf]
          exact congrFun (List.filterMap_eq_map (f := p.valueOf)) _
      rw [RowFeed.valuesFor, List.filter_append, List.filterMap_append]
      show RowFeed.valuesFor r.target (valueRows G path row) ++
        RowFeed.valuesFor r.target (rows.flatMap (valueRows G path)) = _
      rw [hall, hnone, List.append_nil]
    · have hr : r ∈ rows := (List.mem_cons.1 hr).resolve_left fun e => he (e ▸ rfl)
      rw [RowFeed.valuesFor_append fun x hx => by rw [target_of_mem_valueRows hx]; exact he]
      exact valuesFor_flatMap G path hrows r hr

end Values

/-! ## Targets -/

section Targets

variable {ctx : Context}

/-- A scan delivers the targets that the pass sees. -/
theorem Context.Reliable.delivers_scan (h : ctx.Reliable) (frame : Frame) :
    (ctx.scan frame).Delivers (targetLines ((ctx.view frame.targets h).targets frame.path)) := by
  obtain ⟨hselect, hasc, -⟩ := h.select frame.targets frame.path
  refine ⟨(ctx.seen frame.targets frame.path).map fun t =>
    { target := t
      scope := TargetScan.scope ⟨ctx.source, frame.targets, ctx.targetMode frame.path⟩ },
    ?_, ?_, ?_⟩
  · show Except.ok (TargetScan.rows _) = _
    rw [TargetScan.rows, hselect]
  · refine List.Pairwise.map _ (fun a b hab => ?_) hasc
    exact (Row.compareLines_singleton a b).trans hab
  · ext l
    rw [Row.mem_lines, mem_targetLines]
    simp only [List.mem_map, exists_exists_and_eq_and]
    exact exists_congr fun t => and_congr_left fun _ => List.mem_toFinset.symm

/-- What a leaf makes of the rows that it is given: their targets. -/
theorem Plan.Lists.delivers_focus {q : Plan} {rows : List Row} (hq : q.Lists rows) :
    (Plan.unique (.sort (.trimTo q 1)) none).Delivers
      (targetLines (rows.map Row.target).toFinset) := by
  have hascends : (Plan.sort (.trimTo q 1)).Ascends
      (Row.lines (rows.map (Row.trim 1))) := by
    refine ⟨_, (hq.trim 1).sort, Row.sorted_sort _, ?_⟩
    exact Row.lines_of_eq_iff fun l => by simp only [(Ordered.perm_sort _).mem_iff]
  have hlines : Row.lines (rows.map (Row.trim 1)) = targetLines (rows.map Row.target).toFinset := by
    ext l
    rw [Row.mem_lines, mem_targetLines]
    simp only [List.mem_map, exists_exists_and_eq_and, List.mem_toFinset]
    exact Iff.rfl
  rw [← hlines]
  exact hascends.unique

end Targets

/-! ## Violations -/

namespace Constraint

variable {G : Store} {path : Option Path} {c : Constraint} {T : Finset Term}

/-- The rows of rejected values are the lines of a constraint that judges single values. -/
theorem exists_rejected_iff {row : Row} {l : List Term} :
    (∃ x ∈ valueRows G path row, c.rejects x = true ∧ x.line = l) ↔
      l ∈ c.rejectedLines G path row.target := by
  unfold valueRows rejectedLines
  cases path with
  | none =>
    -- without a path the target is its own value
    have hrejects : c.rejects ((row.trim 1).withValue row.target) = !c.accepts row.target := rfl
    simp only [List.mem_singleton, exists_eq_left, hrejects]
    cases c.accepts row.target with
    | true => simp
    | false =>
      rw [if_neg Bool.false_ne_true, Finset.mem_singleton]
      exact ⟨fun hl => hl.2.symm, fun hl => ⟨rfl, hl.symm⟩⟩
  | some p =>
    simp only [List.mem_toFinset, List.mem_map, List.mem_filter]
    constructor
    · intro h
      obtain ⟨x, ⟨st, hst, rfl⟩, hx, rfl⟩ := h
      exact ⟨st, ⟨hst, hx⟩, rfl⟩
    · intro h
      obtain ⟨st, ⟨hst, hx⟩, rfl⟩ := h
      exact ⟨_, ⟨st, hst, rfl⟩, hx, rfl⟩

/-- The targets that satisfy a condition, one line each. -/
theorem biUnion_targetLines (T : Finset Term) (P : Term → Prop) [DecidablePred P] :
    (T.biUnion fun t => if P t then {[t]} else ∅) = targetLines (T.filter P) := by
  ext l
  rw [Finset.mem_biUnion, mem_targetLines]
  constructor
  · intro h
    obtain ⟨t, ht, hl⟩ := h
    split at hl
    · next hP => exact ⟨t, Finset.mem_filter.2 ⟨ht, hP⟩, (Finset.mem_singleton.1 hl).symm⟩
    · exact absurd hl (Finset.notMem_empty l)
  · intro h
    obtain ⟨t, ht, rfl⟩ := h
    obtain ⟨ht, hP⟩ := Finset.mem_filter.1 ht
    exact ⟨t, ht, by rw [if_pos hP]; exact Finset.mem_singleton_self _⟩

end Constraint

namespace Unshared

variable {ctx : Context} {frame : Frame} {c : Constraint} {q : Plan} {T : Finset Term}

/-- The plan of a constraint that judges single values delivers the lines of rejected values. -/
theorem delivers_rejected (h : ctx.source.Reliable) (hq : q.Delivers (targetLines T)) :
    (Plan.filter (.valuesOf q ctx.source frame.path) c.display c.rejects).Delivers
      (T.biUnion (c.rejectedLines ctx.source.store frame.path)) := by
  obtain ⟨rows, hlists, hstrict, hlines⟩ := hq
  have htargets := Plan.pairwise_target (fun r hr => (Row.line_of_mem hlines hr).1) hstrict
  refine ⟨_, (hlists.valuesOf h frame.path).filter _ _,
    List.Pairwise.filter _ (strict_flatMap_valueRows _ _ htargets), ?_⟩
  ext l
  simp only [Row.mem_lines, List.mem_filter, List.mem_flatMap, Finset.mem_biUnion]
  constructor
  · intro hex
    obtain ⟨x, ⟨⟨r, hr, hx⟩, hrejects⟩, rfl⟩ := hex
    exact ⟨r.target, (Row.line_of_mem hlines hr).2,
      Constraint.exists_rejected_iff.1 ⟨x, hx, hrejects, rfl⟩⟩
  · intro hex
    obtain ⟨t, ht, hl⟩ := hex
    obtain ⟨r, hr, rfl⟩ := Row.exists_of_mem hlines ht
    obtain ⟨x, hx, hrejects, rfl⟩ := Constraint.exists_rejected_iff.2 hl
    exact ⟨x, ⟨⟨r, hr, hx⟩, hrejects⟩, rfl⟩

/-- The plan of any other constraint delivers the targets whose values it judges to be in
violation. -/
theorem delivers_counted (h : ctx.source.Reliable) (hq : q.Delivers (targetLines T)) :
    (Plan.countValues q (.valuesOf q ctx.source frame.path) c.display
      fun values => c.violatedBy values).Delivers (targetLines
        (T.filter fun t => c.violatedBy (ctx.source.store.valuesOf frame.path t) = true)) := by
  obtain ⟨rows, hlists, hstrict, hlines⟩ := hq
  have htargets := Plan.pairwise_target (fun r hr => (Row.line_of_mem hlines hr).1) hstrict
  have hsorted := (strict_flatMap_valueRows ctx.source.store frame.path htargets).sorted
  -- among the values of all targets, each target finds its own
  have hfilter : (rows.filter fun r => c.violatedBy (RowFeed.valuesFor r.target
      (rows.flatMap (valueRows ctx.source.store frame.path)))) =
      rows.filter fun r => c.violatedBy (ctx.source.store.valuesOf frame.path r.target) :=
    List.filter_congr fun r hr => by rw [valuesFor_flatMap _ _ htargets r hr]
  refine ⟨_, hlists.countValues (hlists.valuesOf h frame.path) htargets (hsorted.of_sorted _) _ _,
    ?_, ?_⟩
  · rw [hfilter]
    refine List.Pairwise.map _ (fun a b hab => ?_) (htargets.filter _)
    exact (Row.compareLines_singleton _ _).trans hab
  · rw [hfilter]
    ext l
    simp only [Row.mem_lines, mem_targetLines, List.mem_map, List.mem_filter,
      exists_exists_and_eq_and, Finset.mem_filter]
    constructor
    · intro hex
      obtain ⟨r, ⟨hr, hv⟩, rfl⟩ := hex
      exact ⟨r.target, ⟨(Row.line_of_mem hlines hr).2, hv⟩, rfl⟩
    · intro hex
      obtain ⟨t, ⟨ht, hv⟩, rfl⟩ := hex
      obtain ⟨r, hr, rfl⟩ := Row.exists_of_mem hlines ht
      exact ⟨r, ⟨hr, hv⟩, rfl⟩

/-- The plan of a constraint delivers the lines that the constraint has about the targets. -/
theorem shows_violations (h : ctx.source.Reliable) (hq : q.Delivers (targetLines T)) :
    (violationsOf ctx frame c q).Shows (c.table ctx.source.store T frame.path false) := by
  -- single values are rejected line by line, sets of values target by target
  have hlinesAt : c.linesAt ctx.source.store frame.path false =
      c.violationLines ctx.source.store frame.path := rfl
  unfold violationsOf
  split
  · next hv =>
    refine ⟨?_, ?_⟩
    · show (if frame.path.isSome then _ else _) = c.lineLayout frame.path false
      rw [Constraint.lineLayout, hv]
      rfl
    · have hviolations : c.violationLines ctx.source.store frame.path =
          c.rejectedLines ctx.source.store frame.path := funext fun t => if_pos hv
      rw [Constraint.table, hlinesAt, hviolations]
      exact delivers_rejected h hq
  · next hv =>
    refine ⟨?_, ?_⟩
    · show Layout.aggregated = c.lineLayout frame.path false
      rw [Constraint.lineLayout, Bool.eq_false_of_not_eq_true hv]
      rfl
    · have hviolations : c.violationLines ctx.source.store frame.path = fun t =>
          if c.violatedBy (ctx.source.store.valuesOf frame.path t) then {[t]} else ∅ :=
        funext fun t => if_neg hv
      rw [Constraint.table, hlinesAt, hviolations, Constraint.biUnion_targetLines]
      exact delivers_counted h hq

/-- The plan of a negated constraint delivers the targets about which the constraint has no
line. -/
theorem shows_satisfactions (h : ctx.source.Reliable) (hl : q.layout = .aggregated)
    (hq : q.Delivers (targetLines T)) :
    (satisfactionsOf ctx frame c q).Shows (c.table ctx.source.store T frame.path true) := by
  refine ⟨hl, ?_⟩
  have hfocus : (Plan.unique (.sort (.trimTo q 1)) none).Delivers (targetLines T) := by
    obtain ⟨rows, hlists, -, hlines⟩ := hq
    rw [← Row.toFinset_map_target hlines]
    exact hlists.delivers_focus
  have hviolations : (violationsOf ctx frame c (.unique (.sort (.trimTo q 1)) none)).Delivers
      (c.table ctx.source.store T frame.path false).lines := (shows_violations h hfocus).delivers
  have hlinesAt : c.linesAt ctx.source.store frame.path true = fun t =>
      if c.violationLines ctx.source.store frame.path t = ∅ then {[t]} else ∅ := rfl
  -- the targets without a line are those that no line is about
  have htargets : (T.filter fun t => c.violationLines ctx.source.store frame.path t = ∅) =
      T \ (c.table ctx.source.store T frame.path false).lines.biUnion
        fun l => l.head?.toFinset := by
    ext t
    simp only [Finset.mem_filter, Finset.mem_sdiff, Finset.mem_biUnion, Option.mem_toFinset,
      Option.mem_def]
    refine and_congr_right fun ht => ?_
    rw [Finset.eq_empty_iff_forall_notMem]
    constructor
    · intro hnone hex
      obtain ⟨l, hl, hlt⟩ := hex
      exact hnone l ((Constraint.mem_table hlt).1 hl).2
    · intro hno l hl
      have hlt := Constraint.head?_of_mem_violationLines hl
      exact hno ⟨l, (Constraint.mem_table hlt).2 ⟨ht, hl⟩, hlt⟩
  rw [Constraint.table, hlinesAt, Constraint.biUnion_targetLines, htargets]
  exact hq.antiJoin hviolations.distinctTargets

/-- The plan of a constraint shows the table of the constraint. -/
theorem shows_tag (h : ctx.source.Reliable) (hl : q.layout = .aggregated)
    (hq : q.Delivers (targetLines T)) (id : ShapeId) (negate : Bool) :
    (Plan.tag (if negate then satisfactionsOf ctx frame c q else violationsOf ctx frame c q)
      id).Shows (c.table ctx.source.store T frame.path negate) := by
  refine Plan.Shows.tag ?_ id
  cases negate with
  | true => exact shows_satisfactions h hl hq
  | false => exact shows_violations h hq

end Unshared

end GraphShapes
