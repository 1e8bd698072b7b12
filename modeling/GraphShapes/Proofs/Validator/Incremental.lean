import GraphShapes.Proofs.Planner.Bulk
import GraphShapes.Proofs.Planner.Commit
import GraphShapes.Proofs.Planner.Disjunction
import GraphShapes.Proofs.Validator.Sections

/-!
# Incremental validation against full validation

A pass over a pending commit looks at few targets, but it says what matters about them. Every
violation that it reports is one that full validation of the data after the commit reports for the
same shape (`reports_all_of_reports`). And every violation that is new, because full validation
reports it after the commit and not before, the pass reports too (`reports_of_new`). A violation
that was there before may be reported again or not.

Both hold for every data, commit and list of well-formed shapes, under settings that neither ask for
full validation nor end a pass or a list of violations early.
-/

namespace GraphShapes.Validator

variable {v : Validator}

section Reports

variable (hf : v.config.failFast = false) (hcap : v.config.maxViolationsPerShape = none)
  (hw : ∀ node ∈ v.shapes, ∀ s ∈ node.shapes, s.wellFormed = true)
include hf hcap hw

/-- What full validation reports, the shapes report about all targets. -/
theorem reports_bulk_iff (G : Store) {i j : Nat} {t : Term} :
    v.Reports (.bulk (.ofStore G) v.config) i j t ↔
      ∃ node s, shapeAt v.shapes i j = some (node, s) ∧ node.deactivated = false ∧
        Table.Reports (s.rows G (G.selection node.targets) none false) t := by
  have hb := Context.isBulk_bulk (.ofStore G) v.config
  have hr := Context.reliable_of_isBulk (Source.reliable_ofStore G) hb
  rw [reports_iff hf hcap hw hr]
  refine exists_congr fun node => exists_congr fun s => and_congr_right fun _ => ?_
  unfold Finds
  rw [hr.changes_eq_rows hb]
  exact Iff.rfl

/-- What an incremental pass reports, the shapes report as far as the pass looks. -/
theorem reports_incremental_iff (before added removed : Store) {i j : Nat} {t : Term} :
    v.Reports (.incremental (.ofChange before added removed) v.config) i j t ↔
      ∃ node s, shapeAt v.shapes i j = some (node, s) ∧ node.deactivated = false ∧
        Table.Reports (s.changes
          (Transaction.view before added removed v.config node.targets) none false) t :=
  reports_iff hf hcap hw (Transaction.reliable_context v.config)

end Reports

/-- Incremental validation reports no target that full validation does not report. -/
theorem reports_all_of_reports {before added removed : Store}
    (hall : v.config.validateAll = false) (hf : v.config.failFast = false)
    (hcap : v.config.maxViolationsPerShape = none)
    (hw : ∀ node ∈ v.shapes, ∀ s ∈ node.shapes, s.wellFormed = true) {i j : Nat} {t : Term}
    (h : v.Reports (.incremental (.ofChange before added removed) v.config) i j t) :
    v.Reports (.bulk (Transaction.ofChange before added removed).after v.config) i j t := by
  obtain ⟨node, s, hplace, hactive, hreports⟩ :=
    (reports_incremental_iff hf hcap hw before added removed).1 h
  refine (reports_bulk_iff hf hcap hw _).2 ⟨node, s, hplace, hactive, ?_⟩
  exact Shape.reports_rows_of_changes (Transaction.restricted_or_even hall node.targets)
    (Transaction.view_follows hall node.targets).seen hreports

/-- Incremental validation misses no target that full validation reports now and did not report
before. -/
theorem reports_of_new {before added removed : Store}
    (hall : v.config.validateAll = false) (hf : v.config.failFast = false)
    (hcap : v.config.maxViolationsPerShape = none)
    (hw : ∀ node ∈ v.shapes, ∀ s ∈ node.shapes, s.wellFormed = true) {i j : Nat} {t : Term}
    (h : v.Reports (.bulk (Transaction.ofChange before added removed).after v.config) i j t)
    (hbefore : ¬v.Reports (.bulk (.ofStore before) v.config) i j t) :
    v.Reports (.incremental (.ofChange before added removed) v.config) i j t := by
  obtain ⟨node, s, hplace, hactive, hreports⟩ := (reports_bulk_iff hf hcap hw _).1 h
  refine (reports_incremental_iff hf hcap hw before added removed).2
    ⟨node, s, hplace, hactive, ?_⟩
  refine Shape.reports_changes_of_new (Transaction.restricted_or_even hall node.targets)
    (Transaction.view_follows hall node.targets) hreports fun hold => hbefore ?_
  exact (reports_bulk_iff hf hcap hw before).2 ⟨node, s, hplace, hactive, hold⟩

/-! ## A commit that breaks a rule -/

open Shape (valuesHead numbersOrSingle)

/-- A validator that asks every subject for numbers or a single value. -/
def numbersOrSingleOnly : Validator where
  shapes := [{ id := ⟨1⟩
               targets := [.subjectsOf (.iri "p")]
               shapes := [.disj valuesHead numbersOrSingle] }]
  config := {}
  shapesHash := .fill 0

/-- A subject with one number. -/
def oneNumber : Store := .ofList [⟨.iri "a", .iri "p", .int 5⟩]

/-- A text for the same subject. -/
def oneText : Store := .ofList [⟨.iri "a", .iri "p", .str "x"⟩]

theorem wellFormed_numbersOrSingle :
    ∀ node ∈ numbersOrSingleOnly.shapes, ∀ s ∈ node.shapes, s.wellFormed = true := by decide

/-- The text is neither a number nor the only value. -/
theorem reports_of_new_text :
    numbersOrSingleOnly.Reports
      (.incremental (.ofChange oneNumber oneText .empty) numbersOrSingleOnly.config) 0 0
      (.iri "a") := by
  have hnow : numbersOrSingleOnly.Reports
      (.bulk (Transaction.ofChange oneNumber oneText .empty).after numbersOrSingleOnly.config) 0 0
      (.iri "a") :=
    (reports_bulk_iff rfl rfl wellFormed_numbersOrSingle _).2
      ⟨_, _, rfl, rfl, _, rfl, [.iri "a"], by decide, rfl⟩
  have hbefore : ¬numbersOrSingleOnly.Reports
      (.bulk (.ofStore oneNumber) numbersOrSingleOnly.config) 0 0 (.iri "a") := by
    have hrows : (Shape.disj valuesHead numbersOrSingle).rows oneNumber
        (oneNumber.selection [.subjectsOf (.iri "p")]) none false = some ⟨.aggregated, ∅⟩ := by decide
    rw [reports_bulk_iff rfl rfl wellFormed_numbersOrSingle]
    intro h
    obtain ⟨node, s, hplace, -, table, htable, l, hl, -⟩ := h
    cases hplace
    obtain rfl := Option.some.inj (hrows.symm.trans htable)
    exact absurd hl (Finset.notMem_empty l)
  exact reports_of_new rfl rfl rfl wellFormed_numbersOrSingle hnow hbefore

/-- What the pass reports about the text, full validation reports. -/
theorem reports_all_of_reports_text :
    numbersOrSingleOnly.Reports
      (.bulk (Transaction.ofChange oneNumber oneText .empty).after numbersOrSingleOnly.config) 0 0
      (.iri "a") := by
  refine reports_all_of_reports rfl rfl rfl wellFormed_numbersOrSingle ?_
  exact (reports_incremental_iff rfl rfl wellFormed_numbersOrSingle _ _ _).2
    ⟨_, _, rfl, rfl, _, rfl, [.iri "a"], by decide, rfl⟩

end GraphShapes.Validator
