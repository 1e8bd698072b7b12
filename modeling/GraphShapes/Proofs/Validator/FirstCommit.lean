import GraphShapes.Proofs.Planner.Disjunction
import GraphShapes.Proofs.Validator.Incremental

/-!
# The first commit

A pass over a commit into an empty store looks at the targets that the commit may affect, passes
over shapes that it cannot bear on and judges the branches of a disjunction for all targets. A bulk
pass over the data after the commit looks at every target and judges branches for their candidates.
Both list the same violations in the same order, up to scopes and traces
(`validate_initial_eq_validateAll`).

The data has to mention every listed target: a bulk pass judges one that no statement mentions, and
a pass over a commit passes over it. Any other target is selected because of a statement, and into
an empty store every statement is new. So the commit marks every target (`marked_of_selected`), and
what a shape reports is what it reports about all of them (`linesOf_changes_eq_rows`). A report
lists these lines, and there is only one order for them (`Findings.Tells.map_plain_eq`).
-/

namespace GraphShapes

/-- The violation without its scope and its trace. -/
def Violation.plain (violation : Violation) : Violation :=
  { violation with scope := .base, trace := [] }

/-! ## Commits into an empty store -/

namespace Transaction

/-- The first commit leads to what it adds. -/
theorem after_initial (G : Store) : (initial G).after = .ofStore G := by
  refine congrArg Source.ofStore (Store.eq_of_mem_iff fun st => ?_)
  have hmem : st ∈ (initial G).after.store.toList ↔ _ := mem_after_iff_given
  exact hmem.trans (or_iff_right fun h => absurd h.1 List.not_mem_nil)

section Empty

variable {before added removed : Store} (he : before.isEmpty = true) {targets : List Target}
  (hlisted : ∀ target ∈ targets, ∀ x, target.lists x →
    ∃ st ∈ (ofChange before added removed).after.store.toList, st.subject = x ∨ st.object = x)
include he hlisted

theorem marked_of_selected {x : Term}
    (hx : x ∈ (ofChange before added removed).after.store.selection targets) :
    ∃ target ∈ targets, (ofChange before added removed).delta.Marks target x := by
  obtain ⟨target, htarget, hpicks⟩ := TargetScan.mem_selection.1 hx
  refine ⟨target, htarget, ?_⟩
  rcases Target.mem_picks_iff.1 hpicks with hl | ⟨st, hst, hp⟩
  · obtain ⟨st, hst, hmentions⟩ := hlisted target htarget x hl
    exact Delta.marks_of_mentions hl (changes_of_mem_after he hst) hmentions
  · exact Delta.marks_of_changes (changes_of_mem_after he hst) hp

/-- The pass reports what the shape reports about all targets. -/
theorem linesOf_changes_eq_rows {config : Config} (hc : config.validateAll = false) (s : Shape)
    (path : Option Path) (negate : Bool) :
    Table.linesOf (s.changes (view before added removed config targets) path negate) =
      Table.linesOf (s.rows (ofChange before added removed).after.store
        ((ofChange before added removed).after.store.selection targets) path negate) := by
  -- every selected target is marked, as everything about it is new
  have hseen : ∀ path, (view before added removed config targets).targets path =
      (ofChange before added removed).after.store.selection targets := by
    intro path
    refine Finset.Subset.antisymm ((view_follows hc targets).seen path) fun x hx => ?_
    exact Context.mem_view_targets.2
      ⟨hx, (concerns_iff hc).2 (.inl (marked_of_selected he hlisted hx))⟩
  rcases ((ofChange before added removed).after.store.selection targets).eq_empty_or_nonempty
    with hnone | hsome
  · -- without targets the pass may pass over shapes, but there is nothing to report
    have hbare := Shape.bare_changes (view before added removed config targets) s path negate
      (.inr fun p => (hseen p).trans hnone)
    have hbare' := (s.piece (view before added removed config targets) path
      negate).bare_among_empty (ofChange before added removed).after.store
    rw [hnone, hbare.linesOf_eq]
    exact hbare'.linesOf_eq.symm
  · -- a target is marked, so the delta bears on every path
    obtain ⟨x, hx⟩ := hsome
    obtain ⟨target, htarget, hmarks⟩ := marked_of_selected he hlisted hx
    rw [Shape.changes_uniform hseen (bears_of_marks hc ⟨target, htarget, x, hmarks⟩)]
    rfl

end Empty

end Transaction

/-! ## Reports with the same lines -/

/-- There is only one way to tell lines, up to scopes and traces. -/
theorem Findings.Tells.map_plain_eq {id : ShapeId} {shape : Shape} {lines : Finset (List Term)}
    {a b : Findings} (h : a.Tells id shape lines) (h' : b.Tells id shape lines) :
    a.violations.map Violation.plain = b.violations.map Violation.plain := by
  obtain ⟨rows, hviolations, hstrict, hlines⟩ := h
  obtain ⟨rows', hviolations', hstrict', hlines'⟩ := h'
  have hplain : ∀ rows : List Row, (rows.map (Violation.ofRow id shape)).map Violation.plain =
      (rows.map Row.plain).map (Violation.ofRow id shape) := fun rows => by
    rw [List.map_map, List.map_map]
    rfl
  rw [hviolations, hviolations', hplain, hplain,
    hstrict.map_plain_eq hstrict' (hlines.trans hlines'.symm)]

/-- Two lists that are related to one list are related to each other. -/
theorem rel_of_common {α β γ : Type} {R : α → β → Prop} {R' : α → γ → Prop} {S : β → γ → Prop} :
    ∀ {as : List α} {bs : List β} {cs : List γ}, (∀ a ∈ as, ∀ b c, R a b → R' a c → S b c) →
      List.Forall₂ R as bs → List.Forall₂ R' as cs → List.Forall₂ S bs cs
  | [], _, _, _, .nil, .nil => .nil
  | _ :: _, _, _, h, .cons hab hbs, .cons hac hcs => by
    obtain ⟨ha, has⟩ := List.forall_mem_cons.1 h
    exact .cons (ha _ _ hab hac) (rel_of_common has hbs hcs)

namespace Validator

/-- Sections with the same lines list the same violations. -/
theorem map_plain_eq_of_told {lines lines' : NodeShape → Shape → Finset (List Term)}
    {nodes : List NodeShape} {parts parts' : List (List Findings)} (h : Told lines nodes parts)
    (h' : Told lines' nodes parts')
    (hlines : ∀ node ∈ nodes, ∀ s ∈ node.shapes, lines node s = lines' node s) :
    (parts.flatten.flatMap Findings.violations).map Violation.plain =
      (parts'.flatten.flatMap Findings.violations).map Violation.plain := by
  have hrows : List.Forall₂ (List.Forall₂ fun a b : Findings =>
      a.violations.map Violation.plain = b.violations.map Violation.plain) parts parts' := by
    refine rel_of_common (fun node hnode row row' hrow hrow' => ?_) h h'
    refine rel_of_common (fun s hs a b ha hb => ?_) hrow hrow'
    exact Findings.Tells.map_plain_eq ha (hlines node hnode s hs ▸ hb)
  rw [List.map_flatMap, List.map_flatMap, List.flatMap, List.flatMap]
  refine congrArg List.flatten ?_
  rw [← List.forall₂_eq_eq_eq, List.forall₂_map_left_iff, List.forall₂_map_right_iff]
  exact List.rel_flatten hrows

/-- Into an empty store, a commit is validated like the data after it. -/
theorem validate_into_empty {v : Validator} (hall : v.config.validateAll = false)
    (hf : v.config.failFast = false) (hcap : v.config.maxViolationsPerShape = none)
    (hw : ∀ node ∈ v.shapes, ∀ s ∈ node.shapes, s.wellFormed = true)
    {before added removed : Store} (he : before.isEmpty = true)
    (hlisted : ∀ node ∈ v.shapes, ∀ target ∈ node.targets, ∀ x, target.lists x →
      ∃ st ∈ (Transaction.ofChange before added removed).after.store.toList,
        st.subject = x ∨ st.object = x)
    (stamp stamp' : PassStamp) :
    ∃ report report',
      (outcome (v.validate (.ofChange before added removed) stamp)).1 = .ok report ∧
      (outcome (v.validateAll (Transaction.ofChange before added removed).after stamp')).1 =
        .ok report' ∧
      report.violations.map Violation.plain = report'.violations.map Violation.plain := by
  have hb := Context.isBulk_bulk (Transaction.ofChange before added removed).after v.config
  have hr := Context.reliable_of_isBulk (Source.reliable_ofStore _) hb
  have hr' : (Transaction.context before added removed v.config).Reliable :=
    Transaction.reliable_context v.config
  obtain ⟨parts, plans, hsections, htold⟩ := succeeds_sections hr' hcap hw #[]
  obtain ⟨parts', plans', hsections', htold'⟩ := succeeds_sections hr hcap hw #[]
  obtain ⟨report, hrun, hviolations⟩ := outcome_run hf hsections stamp
  obtain ⟨report', hrun', hviolations'⟩ := outcome_run hf hsections' stamp'
  refine ⟨report, report', congrArg Prod.fst hrun, congrArg Prod.fst hrun', ?_⟩
  rw [hviolations, hviolations']
  -- it is enough that both passes tell the same lines of each shape
  refine map_plain_eq_of_told htold htold' fun node hnode s _ => ?_
  unfold foundLines
  rw [hr.changes_eq_rows hb, Transaction.linesOf_changes_eq_rows he (hlisted node hnode) hall]
  rfl

/-- The first commit is validated like all of its data: if every listed term is mentioned somewhere,
both passes succeed and list the same violations in the same order, up to scopes and traces. -/
theorem validate_initial_eq_validateAll {v : Validator} (hall : v.config.validateAll = false)
    (hf : v.config.failFast = false) (hcap : v.config.maxViolationsPerShape = none)
    (hw : ∀ node ∈ v.shapes, ∀ s ∈ node.shapes, s.wellFormed = true) {G : Store}
    (hlisted : ∀ node ∈ v.shapes, ∀ listed, .nodes listed ∈ node.targets → ∀ x ∈ listed,
      ∃ st ∈ G.toList, st.subject = x ∨ st.object = x)
    (stamp stamp' : PassStamp) :
    ∃ report report', (outcome (v.validate (.initial G) stamp)).1 = .ok report ∧
      (outcome (v.validateAll (.ofStore G) stamp')).1 = .ok report' ∧
      report.violations.map Violation.plain = report'.violations.map Violation.plain := by
  have hafter := Transaction.after_initial G
  -- only listed terms need to be mentioned, the other selectors go by statements
  have hlisted' : ∀ node ∈ v.shapes, ∀ target ∈ node.targets, ∀ x, target.lists x →
      ∃ st ∈ (Transaction.initial G).after.store.toList, st.subject = x ∨ st.object = x := by
    intro node hnode target htarget x hx
    rw [hafter]
    cases target with
    | nodes listed => exact hlisted node hnode listed htarget x hx
    | instancesOf c => exact hx.elim
    | subjectsOf p => exact hx.elim
    | objectsOf p => exact hx.elim
  have hempty : Store.empty.isEmpty = true := rfl
  have hsame := validate_into_empty hall hf hcap hw hempty hlisted' stamp stamp'
  rw [← Transaction.initial, hafter] at hsame
  exact hsame

/-- A validator that asks a listed subject for numbers or a single value. -/
def numbersOrSingleListed : Validator :=
  { numbersOrSingleOnly with
    shapes := [{ id := ⟨1⟩
                 targets := [.nodes [.iri "a"]]
                 shapes := [.disj Shape.valuesHead Shape.numbersOrSingle] }] }

/-- The subject has two values. Only the scope and the trace of the violation tell the two passes
apart. -/
theorem validate_initial_eq_validateAll_mixed :
    ∃ report report' : Report,
      (outcome (numbersOrSingleListed.validate (.initial Shape.mixedValues))).1 = .ok report ∧
      (outcome (numbersOrSingleListed.validateAll (.ofStore Shape.mixedValues))).1 =
        .ok report' ∧
      report.violations.map Violation.plain = report'.violations.map Violation.plain ∧
      report.violations ≠ report'.violations := by
  obtain ⟨report, report', hreport, hreport', hsame⟩ := validate_initial_eq_validateAll
    (v := numbersOrSingleListed) (G := Shape.mixedValues) rfl rfl rfl (by decide) (by
      intro node hnode listed hnodes x hx
      obtain rfl := List.mem_singleton.1 hnode
      obtain rfl := Target.nodes.inj (List.mem_singleton.1 hnodes)
      obtain rfl := List.mem_singleton.1 hx
      exact ⟨⟨.iri "a", .iri "p", .int 5⟩, by decide, .inl rfl⟩) {} {}
  have hcommit : (outcome (numbersOrSingleListed.validate
      (.initial Shape.mixedValues))).1.toOption.map Report.violations =
      some [⟨.iri "a", none, none, .delta, ⟨1⟩, ⟨10⟩, .disj, [⟨11⟩, ⟨12⟩, ⟨10⟩]⟩] := by decide +kernel
  have hbulk : (outcome (numbersOrSingleListed.validateAll
      (.ofStore Shape.mixedValues))).1.toOption.map Report.violations =
      some [⟨.iri "a", none, none, .base, ⟨1⟩, ⟨10⟩, .disj, [⟨11⟩, ⟨11⟩, ⟨12⟩, ⟨10⟩]⟩] := by
    decide +kernel
  rw [hreport] at hcommit
  rw [hreport'] at hbulk
  refine ⟨report, report', hreport, hreport', hsame, ?_⟩
  rw [Option.some.inj hcommit, Option.some.inj hbulk]
  decide

end Validator

end GraphShapes
