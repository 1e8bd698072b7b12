import GraphShapes.Proofs.Meaning.Violates
import GraphShapes.Proofs.Planner.Collect
import GraphShapes.Proofs.Planner.Disjunction

/-!
# A shape and its negation

Planned as it is, a shape reports targets that violate it, and planned negated it reports targets
that do not. So no target is reported twice (`negation_complements`): the two plans are made with
different operators, but each of them is right about what it reports.

Together they report every selected target as long as the disjunctions below the shape compare
nothing but targets, in both polarities. A target that violates each branch of a disjunction through
another value is reported neither of a disjunction that compares whole lines, nor of its negation
(`not_negation_complements`).
-/

namespace GraphShapes

namespace Shape

/-- Planned in this polarity, the shape has a plan. -/
def HasPlan (ctx : Context) (frame : Frame) (negate : Bool) (s : Shape) : Prop :=
  ∃ plan draft, (s.plan ctx frame none negate).run.run {} = (.ok (some plan), draft)

/-- The targets of a graph that fail the shape, or its negation, by the logic of shapes. -/
def failing (G : Store) (targets : List Target) (path : Option Path) (negate : Bool) (s : Shape) :
    Finset Term :=
  (G.selection targets).filter fun t => s.violates G t path = !negate

theorem mem_failing {G : Store} {targets : List Target} {path : Option Path} {negate : Bool}
    {s : Shape} {t : Term} : t ∈ s.failing G targets path negate ↔
      t ∈ G.selection targets ∧ s.violates G t path = !negate := Finset.mem_filter

section Polarity

variable {ctx : Context} (hs : ctx.source.Reliable) (hb : ctx.isBulk = true) {s : Shape}
  (hw : s.wellFormed = true) (frame : Frame) (negate : Bool)
include hs hb hw

/-- Exactly the live shapes have a plan. -/
theorem hasPlan_iff : s.HasPlan ctx frame negate ↔ s.isLive = true := by
  have htable := rows_ne_none_iff (G := ctx.source.store)
    (T := ctx.source.store.selection frame.targets) s frame.path negate
  rcases planned_alone hs hb hw frame negate with ⟨hnone, draft, hrun⟩ |
    ⟨table, plan, draft, rows, hrows, hrun, -, -, -⟩
  · refine Iff.trans ⟨fun hplan => ?_, fun hne => absurd hnone hne⟩ htable
    obtain ⟨plan', draft', hrun'⟩ := hplan
    rw [hrun] at hrun'
    cases hrun'
  · refine Iff.trans ⟨fun _ => ?_, fun _ => ⟨plan, draft, hrun⟩⟩ htable
    exact Option.ne_none_iff_exists'.2 ⟨table, hrows⟩

/-- What is found fails the shape in this polarity, and where only targets are compared everything
that fails a live shape is found. -/
theorem exists_finds_failing (hlive : s.isLive = true) :
    ∃ found, s.Finds ctx frame negate found ∧
      found ⊆ s.failing ctx.source.store frame.targets frame.path negate ∧
      (s.comparesTargets frame.path negate = true →
        found = s.failing ctx.source.store frame.targets frame.path negate) := by
  have hsound : Table.reported (s.rows ctx.source.store
      (ctx.source.store.selection frame.targets) frame.path negate) ⊆
        s.failing ctx.source.store frame.targets frame.path negate := by
    intro t ht
    obtain ⟨hselected, -, hv⟩ := fails_of_reports_rows (Table.mem_reported.1 ht)
    exact mem_failing.2 ⟨hselected, hv⟩
  refine ⟨_, finds_rows hs hb hw frame negate, hsound, ?_⟩
  refine fun hc => Finset.Subset.antisymm hsound fun t ht => ?_
  obtain ⟨hselected, hv⟩ := mem_failing.1 ht
  exact Table.mem_reported.2 (reports_rows_of_fails hc hselected ⟨hlive, hv⟩)

end Polarity

/-- A live shape and its negation both have a plan. What the two plans report is disjoint, and on
the side of the logic. A plan that compares nothing but targets reports everything on its side, and
if both do, together they report every selected target. -/
theorem negation_complements {ctx : Context} {G : Store} (hG : ctx.source = .ofStore G)
    (hb : ctx.isBulk = true) {s : Shape} (hw : s.wellFormed = true) (frame : Frame)
    (hplan : ∃ negate, s.HasPlan ctx frame negate) :
    (∀ negate, s.HasPlan ctx frame negate) ∧ ∃ found : Bool → Finset Term,
      (∀ negate, s.Finds ctx frame negate (found negate)) ∧
      Disjoint (found false) (found true) ∧
      (∀ negate, found negate ⊆ s.failing G frame.targets frame.path negate) ∧
      (∀ negate, s.comparesTargets frame.path negate = true →
        found negate = s.failing G frame.targets frame.path negate) ∧
      ((∀ negate, s.comparesTargets frame.path negate = true) →
        found false ∪ found true = G.selection frame.targets) := by
  have hs : ctx.source.Reliable := hG ▸ Source.reliable_ofStore G
  have hstore : ctx.source.store = G := congrArg Source.store hG
  obtain ⟨polarity, hpolarity⟩ := hplan
  have hlive : s.isLive = true := (hasPlan_iff hs hb hw frame polarity).1 hpolarity
  -- a plan finds only failing targets, and all of them if it compares nothing but targets
  choose found hfinds hsound hcomplete using
    fun negate => exists_finds_failing hs hb hw frame negate hlive
  rw [hstore] at hsound hcomplete
  refine ⟨fun negate => (hasPlan_iff hs hb hw frame negate).2 hlive, found, hfinds, ?_, hsound,
    hcomplete, ?_⟩
  · refine Finset.disjoint_left.2 fun t ht ht' => ?_
    -- no target can be on both sides of the logic
    have hviolates := (mem_failing.1 (hsound false ht)).2
    have hsatisfies := (mem_failing.1 (hsound true ht')).2
    rw [hviolates] at hsatisfies
    cases hsatisfies
  · intro hc
    rw [hcomplete false (hc false), hcomplete true (hc true)]
    ext t
    rw [Finset.mem_union, mem_failing, mem_failing, ← and_or_left]
    refine and_iff_left ?_
    cases s.violates G t frame.path with
    | true => exact .inl rfl
    | false => exact .inr rfl

/-- A subject with a text among several values violates both branches. A count has no columns
besides the target, so nothing else is compared. -/
theorem negation_complements_mixed :
    let ctx : Context := .bulk (.ofStore mixedValues) {}
    let frame : Frame := ⟨[.subjectsOf (.iri "p"), .nodes [.iri "b"]], none⟩
    (disj valuesHead numbersOrSingle).Finds ctx frame false {.iri "a"} ∧
      (disj valuesHead numbersOrSingle).Finds ctx frame true {.iri "b"} := by
  intro ctx frame
  have hs : ctx.source.Reliable := Source.reliable_ofStore _
  have hplan : ∃ negate, (disj valuesHead numbersOrSingle).HasPlan ctx frame negate :=
    ⟨false, (hasPlan_iff hs rfl (by decide) frame false).2 (by decide)⟩
  obtain ⟨-, found, hfinds, -, -, hfound, -⟩ :=
    @negation_complements ctx mixedValues rfl rfl _ (by decide) frame hplan
  have hviolators : found false = {.iri "a"} := (hfound false (by decide)).trans (by decide)
  have hothers : found true = {.iri "b"} := (hfound true (by decide)).trans (by decide)
  exact ⟨hviolators ▸ hfinds false, hothers ▸ hfinds true⟩

/-- A number and a text along one path violate each branch through another value. The subject is
reported neither of the disjunction nor of its negation. -/
theorem not_negation_complements :
    let ctx : Context := .bulk (.ofStore mixedValues) {}
    let frame : Frame := ⟨[.subjectsOf (.iri "p")], none⟩
    mixedValues.selection frame.targets = {.iri "a"} ∧
      (∀ negate, (disj valuesHead numbersOrText).HasPlan ctx frame negate) ∧
      ∀ negate, (disj valuesHead numbersOrText).Finds ctx frame negate ∅ := by
  intro ctx frame
  have hs : ctx.source.Reliable := Source.reliable_ofStore _
  have hw : (disj valuesHead numbersOrText).wellFormed = true := by decide
  refine ⟨by decide, fun negate => (hasPlan_iff hs rfl hw frame negate).2 (by decide), ?_⟩
  intro negate
  -- the whole lines of the two branches differ, and both branches are violated
  have hrows : Table.reported ((disj valuesHead numbersOrText).rows mixedValues
      (mixedValues.selection frame.targets) none negate) = ∅ := by
    cases negate <;> decide
  exact hrows ▸ finds_rows hs rfl hw frame negate

end Shape

end GraphShapes
