import GraphShapes.Proofs.Meaning.Pruning
import GraphShapes.Proofs.Meaning.Wrapping
import GraphShapes.Proofs.Planner.Disjunction
import GraphShapes.Proofs.Planner.Collect

/-!
# Rewriting that should change nothing

By the logic of shapes, two things make no difference anywhere in a shape: to wrap what stands there
in a disjunction of nothing else or in two negations, and to delete what is switched off. In a bulk
pass both may still change which targets are found, because they change what a disjunction around
them compares. What is found is right before and after, so that nothing changes where only targets
are compared; otherwise it depends on own paths.

A wrapper hides the own path of what it wraps (`wrapping_keeps_found`): without own paths nothing
changes, and a disjunction that is told of one path less may report less
(`not_wrapping_keeps_found`). Deleting never adds anything that is found (`pruning_keeps_found`),
but a shape that is switched off may be the one with the own path (`not_pruning_keeps_found`).
-/

namespace GraphShapes

namespace Shape

section Found

variable {ctx : Context} (hs : ctx.source.Reliable) (hb : ctx.isBulk = true) {s s' : Shape}
  (hw : s.wellFormed = true) (hw' : s'.wellFormed = true) {frame : Frame} {negate : Bool}
  {found found' : Finset Term} (h : s.Finds ctx frame negate found)
  (h' : s'.Finds ctx frame negate found')
include hs hb hw hw' h h'

/-- What refines a shape finds no more. -/
theorem Finds.subset_of_refines (href : Refines frame.path negate s s') : found ⊆ found' := by
  obtain rfl := h.unique (finds_rows hs hb hw frame negate)
  obtain rfl := h'.unique (finds_rows hs hb hw' frame negate)
  intro t ht
  have hr := Table.mem_reported.1 ht
  exact Table.mem_reported.2 ((href _ _).table.reports hr)

/-- A shape that compares nothing but targets finds at least what a shape of the same logic
finds. -/
theorem Finds.subset_of_alike (halike : Alike frame.path s s')
    (hc : s'.comparesTargets frame.path negate = true) : found ⊆ found' := by
  obtain rfl := h.unique (finds_rows hs hb hw frame negate)
  obtain rfl := h'.unique (finds_rows hs hb hw' frame negate)
  intro t ht
  obtain ⟨hselected, hlive, hv⟩ := fails_of_reports_rows (Table.mem_reported.1 ht)
  have hfails : s'.Fails ctx.source.store t frame.path negate :=
    ⟨halike.isLive.trans hlive, (halike.violates _ t).trans hv⟩
  exact Table.mem_reported.2 (reports_rows_of_fails hc hselected hfails)

end Found

/-! ## Wrapping -/

/-- With a wrapper somewhere in a shape, a bulk pass finds the same as before if the wrapped shape
sets no path of its own, or if only targets are compared. It finds no more than before if the
wrapper forwards what it wraps. -/
theorem wrapping_keeps_found {ctx : Context} {G : Store} (hG : ctx.source = .ofStore G)
    (hb : ctx.isBulk = true) {s s' : Shape} (hw : s.wellFormed = true) (frame : Frame)
    (negate : Bool) (h : Within (fun _ _ => Wraps) frame.path negate s s') :
    ∃ found found', s.Finds ctx frame negate found ∧ s'.Finds ctx frame negate found' ∧
      (Within (fun path _ inner wrapped => Wraps inner wrapped ∧ inner.hasOwnPath path = false)
        frame.path negate s s' → found' = found) ∧
      (Within (fun _ => Forwards) frame.path negate s s' → found' ⊆ found) ∧
      (s.comparesTargets frame.path negate = true → found' ⊆ found) ∧
      (s'.comparesTargets frame.path negate = true → found ⊆ found') := by
  have hs : ctx.source.Reliable := hG ▸ Source.reliable_ofStore G
  -- where only targets are compared, the logic alone decides, and to it a wrapper is nothing
  have halike : Alike frame.path s s' := h.alike fun hwraps => hwraps.alike
  have hw' : s'.wellFormed = true := h.wellFormed (fun hwraps => hwraps.wellFormed) hw
  have hfinds := finds_rows hs hb hw frame negate
  have hfinds' := finds_rows hs hb hw' frame negate
  refine ⟨_, _, hfinds, hfinds', fun hbare => ?_, fun hforwards => ?_, fun hc => ?_, fun hc => ?_⟩
  · have hto : Refines frame.path negate s s' :=
      hbare.refines fun hr => (hr.1.refines_of_bare hr.2).2
    have hfrom : Refines frame.path negate s' s :=
      hbare.symm.refines fun hr => (hr.1.refines_of_bare hr.2).1
    exact Finset.Subset.antisymm (hfinds'.subset_of_refines hs hb hw' hw hfinds hfrom)
      (hfinds.subset_of_refines hs hb hw hw' hfinds' hto)
  · have hfrom : Refines frame.path negate s' s := hforwards.symm.refines fun hr => hr.refines
    exact hfinds'.subset_of_refines hs hb hw' hw hfinds hfrom
  · exact hfinds'.subset_of_alike hs hb hw' hw hfinds halike.symm hc
  · exact hfinds.subset_of_alike hs hb hw hw' hfinds' halike hc

/-- Every value is a number. -/
def numbers : Shape := .constraint { id := ⟨11⟩ } (.datatype .int)

/-- There is at most one value. -/
def singleValue : Shape := .constraint { id := ⟨12⟩ } (.maxCount 1)

/-- Two negations around a branch that sets no path. -/
theorem wrapping_keeps_found_double :
    let ctx : Context := .bulk (.ofStore mixedValues) {}
    let frame : Frame := ⟨[.subjectsOf (.iri "p")], none⟩
    (disj valuesHead [[.neg { id := ⟨20⟩ } (.neg { id := ⟨21⟩ } numbers)], [singleValue]]).Finds
      ctx frame false {.iri "a"} := by
  intro ctx frame
  have hs : ctx.source.Reliable := Source.reliable_ofStore _
  have hwithin : Within (fun path _ inner wrapped => Wraps inner wrapped ∧
      inner.hasOwnPath path = false) none false (disj valuesHead [[numbers], [singleValue]])
        (disj valuesHead [[.neg { id := ⟨20⟩ } (.neg { id := ⟨21⟩ } numbers)], [singleValue]]) :=
    .disj valuesHead [] [[singleValue]] [] [] (.here ⟨.double ⟨20⟩ ⟨21⟩ numbers, rfl⟩)
  obtain ⟨found, found', hfinds, hfinds', heq, -⟩ := @wrapping_keeps_found ctx mixedValues rfl rfl
    (disj valuesHead [[numbers], [singleValue]]) _ (by decide) frame false
    (hwithin.mono fun h => h.1)
  have hrows : Table.reported ((disj valuesHead [[numbers], [singleValue]]).rows mixedValues
      (mixedValues.selection frame.targets) none false) = {.iri "a"} := by decide
  have hfound : found = {.iri "a"} :=
    (hfinds.unique (finds_rows hs rfl (by decide) frame false)).trans hrows
  exact ((heq hwithin).trans hfound) ▸ hfinds'

/-- A text along each of two paths. -/
def twoPaths : Store :=
  .ofList [⟨.iri "a", .iri "p", .str "x"⟩, ⟨.iri "a", .iri "q", .str "y"⟩]

/-- Every value along the other path is a number. -/
def otherNumbers : Shape :=
  .constraint { id := ⟨13⟩, path := some (.predicate (.iri "q")) } (.datatype .int)

/-- Neither text is a number, so that the subject violates both branches. A wrapper hides the other
path, the values along the two paths are compared, and the subject is not found any more. -/
theorem not_wrapping_keeps_found :
    let ctx : Context := .bulk (.ofStore twoPaths) {}
    let frame : Frame := ⟨[.subjectsOf (.iri "p")], none⟩
    Within (fun _ _ => Wraps) none false (disj valuesHead [[otherNumbers], [numbers]])
        (disj valuesHead [[.disj { id := ⟨20⟩ } [[otherNumbers]]], [numbers]]) ∧
      (disj valuesHead [[otherNumbers], [numbers]]).wellFormed = true ∧
      (disj valuesHead [[otherNumbers], [numbers]]).Finds ctx frame false {.iri "a"} ∧
      (disj valuesHead [[.disj { id := ⟨20⟩ } [[otherNumbers]]], [numbers]]).Finds
        ctx frame false ∅ := by
  intro ctx frame
  have hs : ctx.source.Reliable := Source.reliable_ofStore _
  have hrows : Table.reported ((disj valuesHead [[otherNumbers], [numbers]]).rows twoPaths
      (twoPaths.selection frame.targets) none false) = {.iri "a"} := by decide
  have hrows' : Table.reported
      ((disj valuesHead [[.disj { id := ⟨20⟩ } [[otherNumbers]]], [numbers]]).rows twoPaths
        (twoPaths.selection frame.targets) none false) = ∅ := by decide
  refine ⟨.disj valuesHead [] [[numbers]] [] [] (.here (.single ⟨20⟩ otherNumbers)), by decide, ?_⟩
  rw [← hrows, ← hrows']
  exact ⟨finds_rows hs rfl (by decide) frame false, finds_rows hs rfl (by decide) frame false⟩

/-! ## Deleting what is switched off -/

/-- Without shapes that are switched off, a bulk pass finds no more than before. It finds the same
if the deleted shapes make no difference to what is compared, or if only targets are compared. -/
theorem pruning_keeps_found {ctx : Context} {G : Store} (hG : ctx.source = .ofStore G)
    (hb : ctx.isBulk = true) {s s' : Shape} (hw : s.wellFormed = true) (frame : Frame)
    (negate : Bool) (h : Within (fun _ _ => IsPruned) frame.path negate s s') :
    ∃ found found', s.Finds ctx frame negate found ∧ s'.Finds ctx frame negate found' ∧
      found' ⊆ found ∧
      (Within IsPrunedQuietly frame.path negate s s' → found' = found) ∧
      (s'.comparesTargets frame.path negate = true → found' = found) := by
  have hs : ctx.source.Reliable := hG ▸ Source.reliable_ofStore G
  have hw' : s'.wellFormed = true :=
    h.wellFormed (fun ⟨_, _, _, hprunes⟩ => hprunes.wellFormed) hw
  have halike : Alike frame.path s s' := h.alike fun ⟨_, _, _, hprunes⟩ => hprunes.alike
  have hfrom : Refines frame.path negate s' s :=
    h.symm.refines fun ⟨_, _, _, hprunes⟩ => hprunes.refines
  have hfinds := finds_rows hs hb hw frame negate
  have hfinds' := finds_rows hs hb hw' frame negate
  have hsubset := hfinds'.subset_of_refines hs hb hw' hw hfinds hfrom
  refine ⟨_, _, hfinds, hfinds', hsubset, fun hquiet => ?_, fun hc => ?_⟩
  · have hto : Refines frame.path negate s s' :=
      hquiet.refines fun ⟨_, _, _, hprunes, hk⟩ => hprunes.refined hk
    exact Finset.Subset.antisymm hsubset (hfinds.subset_of_refines hs hb hw hw' hfinds' hto)
  · exact Finset.Subset.antisymm hsubset (hfinds.subset_of_alike hs hb hw hw' hfinds' halike hc)

/-- Every value is this text. -/
def onlyText : Shape := .constraint { id := ⟨14⟩ } (.oneOf [.str "x"])

/-- A shape with its own path that is switched off. -/
def switchedOff : Shape :=
  .constraint { id := ⟨15⟩, deactivated := true, path := some (.predicate (.iri "q")) }
    (.datatype .int)

/-- A count compares nothing but targets, whether or not a shape is deleted. -/
theorem pruning_keeps_found_count :
    let ctx : Context := .bulk (.ofStore mixedValues) {}
    let frame : Frame := ⟨[.subjectsOf (.iri "p")], none⟩
    ∃ found, (disj valuesHead [[switchedOff, numbers], [singleValue]]).Finds ctx frame false found ∧
      (disj valuesHead [[numbers], [singleValue]]).Finds ctx frame false found := by
  intro ctx frame
  have hpruned : IsPruned (disj valuesHead [[switchedOff, numbers], [singleValue]])
      (disj valuesHead [[numbers], [singleValue]]) :=
    ⟨_, _, _, .branchMember valuesHead [] [[singleValue]] [] [numbers] rfl (List.cons_ne_nil _ _)⟩
  obtain ⟨found, found', hfinds, hfinds', -, -, heq⟩ := @pruning_keeps_found ctx mixedValues rfl rfl
    (disj valuesHead [[switchedOff, numbers], [singleValue]]) _ (by decide) frame false
    (.here hpruned)
  exact ⟨found, hfinds, heq (by decide) ▸ hfinds'⟩

/-- With a shape that sets another path, be it switched off, only targets are compared and the
subject is found. Without it whole lines are compared, and it is not. -/
theorem not_pruning_keeps_found :
    let ctx : Context := .bulk (.ofStore mixedValues) {}
    let frame : Frame := ⟨[.subjectsOf (.iri "p")], none⟩
    IsPruned (disj valuesHead [[switchedOff, numbers], [onlyText]])
        (disj valuesHead [[numbers], [onlyText]]) ∧
      (disj valuesHead [[switchedOff, numbers], [onlyText]]).wellFormed = true ∧
      (disj valuesHead [[switchedOff, numbers], [onlyText]]).Finds ctx frame false {.iri "a"} ∧
      (disj valuesHead [[numbers], [onlyText]]).Finds ctx frame false ∅ := by
  intro ctx frame
  have hs : ctx.source.Reliable := Source.reliable_ofStore _
  have hpruned : IsPruned (disj valuesHead [[switchedOff, numbers], [onlyText]])
      (disj valuesHead [[numbers], [onlyText]]) :=
    ⟨_, _, _, .branchMember valuesHead [] [[onlyText]] [] [numbers] rfl (List.cons_ne_nil _ _)⟩
  have hrows : Table.reported
      ((disj valuesHead [[switchedOff, numbers], [onlyText]]).rows mixedValues
        (mixedValues.selection frame.targets) none false) = {.iri "a"} := by decide
  have hrows' : Table.reported ((disj valuesHead [[numbers], [onlyText]]).rows mixedValues
      (mixedValues.selection frame.targets) none false) = ∅ := by decide
  refine ⟨hpruned, by decide, ?_⟩
  rw [← hrows, ← hrows']
  exact ⟨finds_rows hs rfl (by decide) frame false, finds_rows hs rfl (by decide) frame false⟩

end Shape

end GraphShapes
