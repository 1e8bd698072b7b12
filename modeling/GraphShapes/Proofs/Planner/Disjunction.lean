import GraphShapes.Proofs.Meaning.Branches
import GraphShapes.Proofs.Planner.Bulk

/-!
# Which targets a disjunction reports

A target violates a disjunction if it violates every branch, and a branch if it violates a member.
A bulk pass that compares only targets reports exactly these (`disj_reports_iff`). If every plan
that takes part has all three columns and no member has its own path, branches are compared by
whole lines: a target is reported only if one and the same line violates every branch. What is
reported is right in any case, but a target that violates each branch through another value is
missed (`not_disj_reports_iff`).
-/

namespace GraphShapes

namespace Shape

/-! ## Shapes planned alone -/

/-- Planned alone, the shape has a plan of this layout. -/
def PlansAs (ctx : Context) (frame : Frame) (layout : Layout) (s : Shape) : Prop :=
  ∃ plan draft, (s.plan ctx frame none false).run.run {} = (.ok (some plan), draft) ∧
    plan.layout = layout

/-- Planned alone, the shape has a plan, and reading it delivers the line. -/
def Yields (ctx : Context) (frame : Frame) (l : List Term) (s : Shape) : Prop :=
  ∃ plan draft rows, (s.plan ctx frame none false).run.run {} = (.ok (some plan), draft) ∧
    plan.collect draft.splitters = .ok rows ∧ ∃ r ∈ rows, r.line = l

/-- Planned alone, the shape has a plan, and reading it delivers a row about the target. -/
def Reports (ctx : Context) (frame : Frame) (t : Term) (s : Shape) : Prop :=
  ∃ plan draft rows, (s.plan ctx frame none false).run.run {} = (.ok (some plan), draft) ∧
    plan.collect draft.splitters = .ok rows ∧ ∃ r ∈ rows, r.target = t

/-- Every branch that has a plan, because one of its members has one, has a member of which the
statement holds. -/
def InEveryBranch (ctx : Context) (frame : Frame) (branches : List (List Shape))
    (holds : Shape → Prop) : Prop :=
  ∀ b ∈ branches, (∃ m ∈ b, ∃ layout, m.PlansAs ctx frame layout) → ∃ m ∈ b, holds m

section Alone

variable {ctx : Context} (hs : ctx.source.Reliable) (hb : ctx.isBulk = true) {s : Shape}
  (hw : s.wellFormed = true) (frame : Frame)
include hs hb hw

/-- What the shape tree says about the selected targets, the plan says. -/
theorem planned_alone (negate : Bool) :
    (s.rows ctx.source.store (ctx.source.store.selection frame.targets) frame.path negate = none ∧
      ∃ draft, (s.plan ctx frame none negate).run.run {} = (.ok none, draft)) ∨
    ∃ table plan draft rows,
      s.rows ctx.source.store (ctx.source.store.selection frame.targets) frame.path negate =
        some table ∧
      (s.plan ctx frame none negate).run.run {} = (.ok (some plan), draft) ∧
      plan.layout = table.layout ∧ plan.collect draft.splitters = .ok rows ∧
      Row.lines rows = table.lines := by
  obtain ⟨plan, draft, hrun, hrel⟩ := plan_answers_table hs hb hw frame negate
  generalize s.rows ctx.source.store (ctx.source.store.selection frame.targets) frame.path negate =
    table? at hrel ⊢
  cases hrel with
  | none => exact .inl ⟨rfl, draft, hrun⟩
  | @some plan table hanswers =>
    obtain ⟨rows, hcollect, -, hlines⟩ := hanswers.collects
    exact .inr ⟨table, plan, draft, rows, rfl, hrun, hanswers.layout, hcollect, hlines⟩

theorem plansAs_iff {layout : Layout} : s.PlansAs ctx frame layout ↔
    ∃ table, s.rows ctx.source.store (ctx.source.store.selection frame.targets) frame.path false =
      some table ∧ table.layout = layout := by
  -- planning is a function, so the plan is the one that the table tells of
  rcases planned_alone hs hb hw frame false with ⟨hnone, draft, hrun⟩ |
    ⟨table, plan, draft, rows, htable, hrun, hlayout, -, -⟩
  · rw [hnone]
    constructor
    · intro hex
      obtain ⟨plan', draft', hrun', -⟩ := hex
      rw [hrun] at hrun'
      cases hrun'
    · intro hex
      obtain ⟨table, htable, -⟩ := hex
      cases htable
  · constructor
    · intro hex
      obtain ⟨plan', draft', hrun', hlayout'⟩ := hex
      rw [hrun] at hrun'
      cases hrun'
      exact ⟨table, htable, hlayout.symm.trans hlayout'⟩
    · intro hex
      obtain ⟨table', htable', hlayout'⟩ := hex
      obtain rfl : table = table' := Option.some.inj (htable.symm.trans htable')
      exact ⟨plan, draft, hrun, hlayout.trans hlayout'⟩

theorem yields_iff {l : List Term} : s.Yields ctx frame l ↔ Table.HasLine
    (s.rows ctx.source.store (ctx.source.store.selection frame.targets) frame.path false) l := by
  -- the rows are those of the one plan there is
  rcases planned_alone hs hb hw frame false with ⟨hnone, draft, hrun⟩ |
    ⟨table, plan, draft, rows, htable, hrun, -, hcollect, hlines⟩
  · rw [hnone]
    constructor
    · intro hex
      obtain ⟨plan', draft', rows', hrun', -, -⟩ := hex
      rw [hrun] at hrun'
      cases hrun'
    · exact fun h => absurd h Table.not_hasLine_none
  · rw [htable]
    constructor
    · intro hex
      obtain ⟨plan', draft', rows', hrun', hcollect', hl⟩ := hex
      rw [hrun] at hrun'
      cases hrun'
      obtain rfl : rows = rows' := Except.ok.inj (hcollect.symm.trans hcollect')
      exact ⟨table, rfl, hlines ▸ Row.mem_lines.2 hl⟩
    · intro hex
      obtain ⟨table', htable', hl⟩ := hex
      obtain rfl := Option.some.inj htable'
      exact ⟨plan, draft, rows, hrun, hcollect, Row.mem_lines.1 (hlines ▸ hl)⟩

omit hs hb hw in
theorem reports_iff_yields {t : Term} :
    s.Reports ctx frame t ↔ ∃ l, s.Yields ctx frame l ∧ l.head? = some t := by
  constructor
  · intro h
    obtain ⟨plan, draft, rows, hrun, hcollect, r, hr, rfl⟩ := h
    exact ⟨r.line, ⟨plan, draft, rows, hrun, hcollect, r, hr, rfl⟩, rfl⟩
  · intro h
    obtain ⟨l, ⟨plan, draft, rows, hrun, hcollect, r, hr, rfl⟩, ht⟩ := h
    exact ⟨plan, draft, rows, hrun, hcollect, r, hr, Option.some.inj ht⟩

theorem reports_iff {t : Term} : s.Reports ctx frame t ↔ Table.Reports
    (s.rows ctx.source.store (ctx.source.store.selection frame.targets) frame.path false) t := by
  rw [reports_iff_yields, Table.reports_iff]
  exact exists_congr fun l => and_congr_left fun _ => yields_iff hs hb hw frame

end Alone

/-! ## Disjunctions -/

section Disjunctions

variable {ctx : Context} {h : ShapeHead} {bs : List (List Shape)} {t : Term}

/-- What holds of the members' tables in every branch holds of the members in every branch. -/
theorem inEveryBranch_iff (hs : ctx.source.Reliable) (hb : ctx.isBulk = true)
    (hw : ∀ b ∈ bs, ∀ m ∈ b, m.wellFormed = true) (frame : Frame) {P : Shape → Prop}
    {Q : Table.Part → Prop}
    (hPQ : ∀ b ∈ bs, ∀ m ∈ b, P m ↔ Q ⟨m.rows ctx.source.store
      (ctx.source.store.selection frame.targets) frame.path false, m.hasOwnPath frame.path⟩) :
    InEveryBranch ctx frame bs P ↔ Table.InEveryBranch (branchParts ctx.source.store
      (ctx.source.store.selection frame.targets) bs frame.path false) Q := by
  unfold InEveryBranch Table.InEveryBranch
  rw [branchParts_eq_map, List.forall_mem_map]
  refine forall₂_congr fun b hbm => ?_
  rw [parts_eq_map]
  simp only [List.mem_map, exists_exists_and_eq_and]
  -- a branch counts if a member has a plan, which is to have a table
  refine imp_congr (exists_congr fun m => and_congr_right fun hm => ?_)
    (exists_congr fun m => and_congr_right fun hm => hPQ b hbm m hm)
  constructor
  · intro h
    obtain ⟨layout, hplans⟩ := h
    obtain ⟨table, htable, -⟩ := (plansAs_iff hs hb (hw b hbm m hm) frame).1 hplans
    exact Option.ne_none_iff_exists'.2 ⟨table, htable⟩
  · intro hne
    obtain ⟨table, htable⟩ := Option.ne_none_iff_exists'.1 hne
    exact ⟨table.layout, (plansAs_iff hs hb (hw b hbm m hm) frame).2 ⟨table, htable, rfl⟩⟩

/-- A disjunction that compares targets reports the targets that are reported of every branch. One
that compares whole lines reports the targets of lines that are delivered for every branch. -/
theorem disj_reports_iff {G : Store} (hG : ctx.source = .ofStore G) (hb : ctx.isBulk = true)
    (hw : (disj h bs).wellFormed = true) (hd : h.deactivated = false) (frame : Frame)
    (hplan : ∃ b ∈ bs, ∃ m ∈ b, ∃ layout, m.PlansAs ctx (frame.within h.path) layout) (t : Term) :
    ∃ layout, (disj h bs).PlansAs ctx frame layout ∧
      ((disj h bs).Reports ctx frame t →
        InEveryBranch ctx (frame.within h.path) bs (Reports ctx (frame.within h.path) t)) ∧
      (layout = .aggregated →
        InEveryBranch ctx (frame.within h.path) bs (Reports ctx (frame.within h.path) t) →
          (disj h bs).Reports ctx frame t) ∧
      (layout = .tripleBased → ((disj h bs).Reports ctx frame t ↔
        ∃ l : List Term, l.head? = some t ∧
          InEveryBranch ctx (frame.within h.path) bs (Yields ctx (frame.within h.path) l))) := by
  have hs : ctx.source.Reliable := hG ▸ Source.reliable_ofStore G
  have hwm : ∀ b ∈ bs, ∀ m ∈ b, m.wellFormed = true := fun b hbm =>
    ((wellFormed_disj hw hd).2 b hbm).2
  -- what the members report, and what the whole reports, is in the tables
  have hreports : InEveryBranch ctx (frame.within h.path) bs
      (Reports ctx (frame.within h.path) t) ↔ _ :=
    inEveryBranch_iff hs hb hwm (frame.within h.path) (Q := fun p => Table.Reports p.table t)
      fun b hbm m hm => reports_iff hs hb (hwm b hbm m hm) _
  have hyields : ∀ l : List Term, InEveryBranch ctx (frame.within h.path) bs
      (Yields ctx (frame.within h.path) l) ↔ _ := fun l =>
    inEveryBranch_iff hs hb hwm (frame.within h.path) (Q := fun p => Table.HasLine p.table l)
      fun b hbm m hm => yields_iff hs hb (hwm b hbm m hm) _
  have hrows : (disj h bs).rows ctx.source.store (ctx.source.store.selection frame.targets)
      frame.path false = Table.disjoin (branchParts ctx.source.store
        (ctx.source.store.selection frame.targets) bs (h.path.or frame.path) false) := by
    rw [rows, hd]
    rfl
  have hwhole : (disj h bs).Reports ctx frame t ↔ _ := reports_iff hs hb hw frame
  rw [hrows] at hwhole
  -- one branch with a plan is enough for the whole to have one
  obtain ⟨table, htable⟩ : ∃ x, Table.disjoin (branchParts ctx.source.store
      (ctx.source.store.selection frame.targets) bs (h.path.or frame.path) false) = some x := by
    refine Table.exists_disjoin ?_
    obtain ⟨b, hbm, m, hm, layout, hplans⟩ := hplan
    obtain ⟨x, hx, -⟩ := (plansAs_iff hs hb (hwm b hbm m hm) _).1 hplans
    rw [branchParts_eq_map]
    refine ⟨_, List.mem_map_of_mem hbm, ?_⟩
    rw [parts_eq_map]
    exact ⟨_, List.mem_map_of_mem hm, Option.ne_none_iff_exists'.2 ⟨x, hx⟩⟩
  refine ⟨table.layout, (plansAs_iff hs hb hw frame).2 ⟨table, hrows.trans htable, rfl⟩, ?_, ?_, ?_⟩
  · exact fun hr => hreports.2 (Table.inEveryBranch_of_reports (hwhole.1 hr))
  · exact fun hl hall => hwhole.2 (Table.reports_of_inEveryBranch htable hl (hreports.1 hall))
  · intro hl
    rw [hwhole, Table.reports_iff]
    refine exists_congr fun l => ?_
    rw [and_comm, hyields l, Table.hasLine_disjoin_iff htable hl]
    exact Iff.rfl

end Disjunctions

/-! ## A target that is missed -/

/-- A number and a text that one subject has along the same path. -/
def mixedValues : Store :=
  .ofList [⟨.iri "a", .iri "p", .str "x"⟩, ⟨.iri "a", .iri "p", .int 5⟩]

/-- Every value is a number, or every value is this text. -/
def numbersOrText : List (List Shape) :=
  [[.constraint { id := ⟨11⟩ } (.datatype .int)], [.constraint { id := ⟨12⟩ } (.oneOf [.str "x"])]]

/-- Every value is a number, or there is at most one. -/
def numbersOrSingle : List (List Shape) :=
  [[.constraint { id := ⟨11⟩ } (.datatype .int)], [.constraint { id := ⟨12⟩ } (.maxCount 1)]]

/-- The head of the disjunction, and the path of its branches. -/
def valuesHead : ShapeHead := { id := ⟨10⟩, path := some (.predicate (.iri "p")) }

/-- The branches have all three columns, so they are compared by whole lines. -/
theorem disj_reports_iff_mixed :
    let ctx : Context := .bulk (.ofStore mixedValues) {}
    let frame : Frame := ⟨[.nodes [.iri "a"]], none⟩
    let inner := frame.within valuesHead.path
    (disj valuesHead numbersOrText).Reports ctx frame (.iri "a") ↔
      ∃ l : List Term, l.head? = some (.iri "a") ∧
        InEveryBranch ctx inner numbersOrText (Yields ctx inner l) := by
  intro ctx frame inner
  have hs : ctx.source.Reliable := Source.reliable_ofStore _
  have hplan : ∃ b ∈ numbersOrText, ∃ m ∈ b, ∃ layout, m.PlansAs ctx inner layout :=
    ⟨_, List.mem_cons_self .., _, List.mem_cons_self .., _,
      (plansAs_iff hs rfl rfl inner).2 ⟨_, rfl, rfl⟩⟩
  obtain ⟨layout, hlayout, -, -, hlines⟩ :=
    disj_reports_iff rfl rfl (by decide) rfl frame hplan (.iri "a")
  obtain ⟨table, htable, rfl⟩ := (plansAs_iff hs rfl (by decide) frame).1 hlayout
  have hrows : (disj valuesHead numbersOrText).rows ctx.source.store
      (ctx.source.store.selection frame.targets) frame.path false = some ⟨.tripleBased, ∅⟩ := by
    decide
  obtain rfl := Option.some.inj (htable.symm.trans hrows)
  exact hlines rfl

/-- The text violates one branch and the number the other. Both branches report the subject, but no
line is delivered for both of them, and the disjunction does not report it. -/
theorem not_disj_reports_iff :
    let ctx : Context := .bulk (.ofStore mixedValues) {}
    let frame : Frame := ⟨[.nodes [.iri "a"]], none⟩
    let inner := frame.within valuesHead.path
    ¬((disj valuesHead numbersOrText).Reports ctx frame (.iri "a") ↔
      InEveryBranch ctx inner numbersOrText (Reports ctx inner (.iri "a"))) := by
  intro ctx frame inner hiff
  have hs : ctx.source.Reliable := Source.reliable_ofStore _
  have hno : ¬(disj valuesHead numbersOrText).Reports ctx frame (.iri "a") := by
    have hrows : (disj valuesHead numbersOrText).rows ctx.source.store
        (ctx.source.store.selection frame.targets) frame.path false = some ⟨.tripleBased, ∅⟩ := by
      decide
    rw [reports_iff hs rfl (by decide) frame, hrows]
    exact Table.Bare.not_reports (fun _ h => by rw [← Option.some.inj h]) _
  refine hno (hiff.2 fun b hb _ => ?_)
  -- but each of the two constraints, planned alone, reports the subject
  have hreported : ∀ c : Constraint, ∀ id : ShapeId, ∀ table : Table,
      (constraint { id := id } c).rows ctx.source.store
        (ctx.source.store.selection inner.targets) inner.path false = some table →
      .iri "a" ∈ table.targets → (constraint { id := id } c).Reports ctx inner (.iri "a") := by
    intro c id table htable ht
    rw [reports_iff hs rfl rfl inner]
    exact ⟨table, htable, Table.mem_targets.1 ht⟩
  rcases List.mem_cons.1 hb with rfl | hb
  · exact ⟨_, List.mem_singleton.2 rfl, hreported _ _ _ rfl (by decide)⟩
  · rw [List.mem_singleton.1 hb]
    exact ⟨_, List.mem_singleton.2 rfl, hreported _ _ _ rfl (by decide)⟩

end Shape

end GraphShapes
