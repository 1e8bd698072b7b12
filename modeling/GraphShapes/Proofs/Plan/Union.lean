import GraphShapes.Proofs.Plan.Reads
import GraphShapes.Proofs.Planner.Layout
import GraphShapes.Proofs.RowFeed.Stable

/-!
# Unions merge their inputs

The union of plans of one layout brings the rows of its inputs and nothing else, each row as it came
and each input in its own order, whatever that order is. If all inputs are in ascending order the
union is their stable sort (`union_stable`): rows of one line come in the order of the inputs, and
those of one input in the order in which it brings them. This is what lets a union put the rows of
several shapes next to each other without mixing up their traces.
-/

namespace GraphShapes.Plan

open Row (Sorted copies)

variable {ss : Splitters} {inputs : List Plan} {lists : List (List Row)}

theorem yields_union (h : List.Forall₂ (Yields ss) inputs lists) :
    (union inputs).Yields ss (RowFeed.mergeAllLists lists) := by
  rw [Yields, feedIn, meaning, meanings_ofList h, ← RowFeed.mergeAll_ofList]
  rfl

theorem reads_union (h : List.Forall₂ (ReadsTo ss) inputs lists) :
    ∀ s ∈ (union inputs).readSplitters, s < ss.size := by
  show ∀ s ∈ allReadSplitters inputs, s < ss.size
  induction h with
  | nil => exact nofun
  | cons hp _ ih => exact List.forall_mem_append.2 ⟨hp.reads, ih⟩

/-- The union brings what merging the rows of the inputs makes. -/
theorem brings_union (hlayered : ss.Layered) (h : List.Forall₂ (ReadsTo ss) inputs lists) :
    (union inputs).Brings ss (RowFeed.mergeAllLists lists) :=
  (yields_union (h.imp fun _ _ hp => hp.yields hlayered)).brings hlayered (reads_union h)

/-- A union of inputs of one layout is an interleaving of them, and a stable sort of their rows if
they are in ascending order. -/
theorem union_stable {layout : Layout} (hlayered : ss.Layered) (hne : inputs ≠ [])
    (hlayout : ∀ p ∈ inputs, p.layout = layout) (h : List.Forall₂ (ReadsTo ss) inputs lists) :
    ∃ plan out, union? inputs = .ok plan ∧ plan.Brings ss out ∧ Interleaves lists out ∧
      ((∀ l ∈ lists, Sorted l) → out = Ordered.sort Row.compare lists.flatten ∧
        ∀ line, copies line out = copies line lists.flatten) := by
  refine ⟨union inputs, RowFeed.mergeAllLists lists, union?_eq_ok hne hlayout,
    brings_union hlayered h, RowFeed.interleaves_mergeAllLists lists, fun hsorted => ?_⟩
  exact ⟨RowFeed.mergeAllLists_eq_sort hsorted, fun _ => RowFeed.copies_mergeAllLists hsorted⟩

/-- Two producers bring the same line, the second of them by a splitter that is read twice. -/
theorem union_stable_ties :
    let row (n : Int64) (id : UInt64) : Row := { target := .int n, trace := [⟨id⟩] }
    let shared := producer [row 1 3, row 1 4, row 2 5]
    let inputs := [producer [row 1 1, row 3 2], .reader 0 .aggregated, .empty .aggregated,
      .reader 0 .aggregated]
    Splitters.Layered #[shared] ∧ ∃ plan out, union? inputs = .ok plan ∧
      plan.Brings #[shared] out ∧ Sorted out ∧
      copies [.int 1] out = [row 1 1, row 1 3, row 1 4, row 1 3, row 1 4] := by
  intro row shared inputs
  have hlayered : Splitters.Layered #[shared] := by
    intro s plan hs t ht
    match s, hs with
    | 0, hs =>
      obtain rfl := Option.some.inj hs
      cases ht
    | s + 1, hs => cases hs
  have hfirst := readsTo_producer hlayered [row 1 1, row 3 2]
  have hshared := readsTo_producer hlayered [row 1 3, row 1 4, row 2 5]
  have hreader := hshared.reader hlayered (s := 0) rfl .aggregated
  have hempty : (Plan.empty .aggregated).ReadsTo #[shared] [] := Yields.readsTo hlayered nofun rfl
  have hne : inputs ≠ [] := nofun
  have hlayout : ∀ p ∈ inputs, p.layout = .aggregated := by decide
  obtain ⟨plan, out, hplan, hout, -, hstable⟩ := union_stable hlayered hne hlayout
    (.cons hfirst (.cons hreader (.cons hempty (.cons hreader .nil))))
  obtain ⟨hsort, hcopies⟩ := hstable (by decide)
  refine ⟨hlayered, plan, out, hplan, hout, hsort ▸ Row.sorted_sort _, ?_⟩
  rw [hcopies]
  rfl

end GraphShapes.Plan
