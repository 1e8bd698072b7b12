import GraphShapes.Proofs.Planner.Bulk

/-!
# Reading shapes

`Shape.collect` plans a shape and reads the plan to the end. What comes is in strictly ascending
order and has the lines that the shape tree says (`collect_of_gives`), whatever splitters there are
when the planning begins. In a bulk pass these are the lines of `Shape.rows` for the selected
targets (`collect_bulk`), and `Finds` is what is left of them if only the targets are looked at.
-/

namespace GraphShapes

namespace Table

variable {table : Option Table}

/-- The lines of a table; none without a table. -/
def linesOf (table : Option Table) : Finset (List Term) := table.elim ∅ lines

/-- The targets that a table is about; none without a table. -/
def reported (table : Option Table) : Finset Term := table.elim ∅ targets

theorem mem_linesOf {l : List Term} : l ∈ linesOf table ↔ HasLine table l := by
  cases table with
  | none => exact ⟨fun h => absurd h (Finset.notMem_empty l), fun h => absurd h not_hasLine_none⟩
  | some x => exact ⟨fun h => ⟨x, rfl, h⟩, fun ⟨_, hy, hl⟩ => Option.some.inj hy ▸ hl⟩

theorem Bare.linesOf_eq (h : Bare table) : linesOf table = ∅ := by
  cases table with
  | none => rfl
  | some x => exact h x rfl

theorem mem_reported {t : Term} : t ∈ reported table ↔ Reports table t := by
  cases table with
  | none => exact ⟨fun h => absurd h (Finset.notMem_empty t), fun h => absurd h not_reports_none⟩
  | some x =>
    refine mem_targets.trans ⟨fun h => ⟨x, rfl, h⟩, fun h => ?_⟩
    obtain ⟨y, hy, hm⟩ := h
    exact Option.some.inj hy ▸ hm

end Table

/-- The rows of a table are about the targets that the table is about. -/
theorem Row.targets_eq_reported {rows : List Row} {table : Option Table}
    (hlines : Row.lines rows = Table.linesOf table) :
    (rows.map Row.target).toFinset = Table.reported table := by
  refine Finset.ext fun t => ?_
  rw [Table.mem_reported, List.mem_toFinset, List.mem_map, Table.reports_iff]
  constructor
  · intro hex
    obtain ⟨r, hr, rfl⟩ := hex
    exact ⟨r.line, Table.mem_linesOf.1 (hlines ▸ Row.mem_lines.2 ⟨r, hr, rfl⟩), rfl⟩
  · intro hex
    obtain ⟨l, hl, hlt⟩ := hex
    obtain ⟨r, hr, rfl⟩ := Row.mem_lines.1 (hlines ▸ Table.mem_linesOf.2 hl)
    exact ⟨r, hr, Option.some.inj hlt⟩

/-- Plans after what a draft already holds, and reads the plan to the end. Without a plan there are
no rows. -/
def Planning.collect (step : Planning (Option Plan)) (draft : Draft) :
    Except PassError (List Row) :=
  match step.run.run draft with
  | (.error e, _) => .error (.plan e)
  | (.ok none, _) => .ok []
  | (.ok (some plan), draft) => (plan.collect draft.splitters).mapError .operator

/-- What is planned without splitters is what comes. -/
theorem Planning.collect_of_comes {step : Planning (Option Plan)} {draft : Draft}
    {value : Except PlanError (Option Plan)} {table : Option Table}
    (hcomes : Planning.Comes step draft.splitters value Plan.OptMirrors)
    (h : Unshared.Gives value table) :
    ∃ rows, step.collect draft = .ok rows ∧ Row.Strict rows ∧
      Row.lines rows = Table.linesOf table := by
  obtain ⟨plan, later, hrun, hanswers⟩ := answers_of_comes hcomes h
  unfold collect
  rw [hrun]
  cases hanswers with
  | none => exact ⟨[], rfl, .nil, rfl⟩
  | some hp =>
    obtain ⟨rows, hcollect, hstrict, hlines⟩ := hp.collects
    refine ⟨rows, ?_, hstrict, hlines⟩
    show Except.mapError _ _ = _
    rw [hcollect]
    rfl

namespace Shape

/-- Plans the shape, or its negation, after what a draft already holds, and reads the plan to the
end. Without a plan there are no rows. -/
def collect (ctx : Context) (frame : Frame) (targets : Option Provider) (negate : Bool)
    (draft : Draft) (s : Shape) : Except PassError (List Row) :=
  match (s.plan ctx frame targets negate).run.run draft with
  | (.error e, _) => .error (.plan e)
  | (.ok none, _) => .ok []
  | (.ok (some plan), draft) => (plan.collect draft.splitters).mapError .operator

theorem collect_eq (ctx : Context) (frame : Frame) (targets : Option Provider) (negate : Bool)
    (draft : Draft) (s : Shape) :
    s.collect ctx frame targets negate draft = (s.plan ctx frame targets negate).collect draft :=
  rfl

/-- Planned from nothing and read to the end, the shape reports exactly these targets. -/
def Finds (ctx : Context) (frame : Frame) (negate : Bool) (s : Shape) (found : Finset Term) :
    Prop :=
  ∃ rows, s.collect ctx frame none negate {} = .ok rows ∧ found = (rows.map Row.target).toFinset

variable {ctx : Context} {s : Shape}

/-- There is only one such set. -/
theorem Finds.unique {frame : Frame} {negate : Bool} {found found' : Finset Term}
    (h : s.Finds ctx frame negate found) (h' : s.Finds ctx frame negate found') :
    found = found' := by
  obtain ⟨rows, hrows, rfl⟩ := h
  obtain ⟨rows', hrows', rfl⟩ := h'
  obtain rfl := Except.ok.inj (hrows.symm.trans hrows')
  rfl

/-- What a shape gives without splitters is what comes. -/
theorem collect_of_gives {frame : Frame} {targets : Option Provider} {given : Option Offer}
    {negate : Bool} {draft : Draft} {table : Option Table}
    (hgiven : GivenMirrors draft.splitters targets given)
    (h : Unshared.Gives (s.unshared ctx frame given negate) table) :
    ∃ rows, s.collect ctx frame targets negate draft = .ok rows ∧ Row.Strict rows ∧
      Row.lines rows = Table.linesOf table := by
  rw [collect_eq]
  exact Planning.collect_of_comes (s.plan_comes ctx negate hgiven) h

/-! ## Bulk passes -/

section Bulk

variable (hs : ctx.source.Reliable) (hb : ctx.isBulk = true) (hw : s.wellFormed = true)
  (frame : Frame) (negate : Bool)
include hs hb hw

/-- In a bulk pass, what comes is what the shape tree says about the selected targets. -/
theorem collect_bulk (draft : Draft) :
    ∃ rows, s.collect ctx frame none negate draft = .ok rows ∧ Row.Strict rows ∧
      Row.lines rows = Table.linesOf (s.rows ctx.source.store
        (ctx.source.store.selection frame.targets) frame.path negate) := by
  have hr := Context.reliable_of_isBulk hs hb
  have hgives := (s.realizes hr frame.targets hw frame.path negate).found
  have hchanges := hr.changes_eq_rows hb frame.targets s frame.path negate
  rw [← hchanges]
  exact collect_of_gives .none hgives

/-- A bulk pass finds the targets that the shape tree says. -/
theorem finds_rows : s.Finds ctx frame negate (Table.reported (s.rows ctx.source.store
    (ctx.source.store.selection frame.targets) frame.path negate)) := by
  obtain ⟨rows, hcollect, -, hlines⟩ := collect_bulk hs hb hw frame negate {}
  exact ⟨rows, hcollect, (Row.targets_eq_reported hlines).symm⟩

end Bulk

end Shape

end GraphShapes
