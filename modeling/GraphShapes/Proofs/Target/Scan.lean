import GraphShapes.Planner.Touched
import GraphShapes.Proofs.Target.Selection

/-!
# What a scan for targets delivers

Over a source and a delta that answer, a scan for all targets delivers the terms that the
selectors pick, in ascending order (`TargetScan.select_all`). A scan for affected targets delivers
those of them that the delta marks, or that a changed statement on the path starts from
(`TargetScan.select_affected`). If the delta touches neither the selectors nor the path, there are
none (`Frame.touched_eq`).
-/

namespace GraphShapes

variable {source : Source} {delta : Delta}

namespace TargetScan

theorem mem_selectAll {select : Target → Except Error Selection} {picked : Target → Term → Prop}
    (h : ∀ t, ∃ selection, select t = .ok selection ∧ ∀ x, x ∈ selection ↔ picked t x) :
    ∀ (targets : List Target) {acc : Selection}, acc.Ascending →
      ∃ selection, selectAll select targets acc = .ok selection ∧ selection.Ascending ∧
        ∀ x, x ∈ selection ↔ x ∈ acc ∨ ∃ t ∈ targets, picked t x
  | [], acc, hacc => ⟨acc, rfl, hacc, fun x => by simp⟩
  | t :: rest, acc, hacc => by
    obtain ⟨selection, hselect, hmem⟩ := h t
    obtain ⟨result, hresult, hasc, hiff⟩ := mem_selectAll h rest (hacc.addAll selection)
    refine ⟨result, by unfold selectAll; rw [hselect]; exact hresult, hasc, fun x => ?_⟩
    rw [hiff, Selection.mem_addAll, hmem, List.exists_mem_cons_iff, or_assoc]

theorem isSelected_eq (h : source.Reliable) (x : Term) : ∀ targets : List Target,
    isSelected source x targets = .ok (x ∈ source.store.selection targets)
  | [] => rfl
  | t :: rest => by
    rw [isSelected, Except.or_eq_ok (t.contains_eq h x) (isSelected_eq h x rest), Except.ok.injEq,
      Bool.eq_iff_iff]
    simp [Store.selection]

theorem mem_selection {G : Store} {targets : List Target} {x : Term} :
    x ∈ G.selection targets ↔ ∃ t ∈ targets, x ∈ t.picks G := by
  rw [Store.selection, List.mem_toFinset, List.mem_flatMap]

/-- A scan for all targets delivers what the selectors pick. -/
theorem select_all (h : source.Reliable) (targets : List Target) :
    ∃ selection, (TargetScan.mk source targets .all).select = .ok selection ∧
      selection.Ascending ∧ ∀ x, x ∈ selection ↔ x ∈ source.store.selection targets := by
  obtain ⟨selection, hselect, hasc, hiff⟩ :=
    mem_selectAll (Target.mem_select h) targets Ordered.ascending_nil
  exact ⟨selection, hselect, hasc, fun x => by rw [hiff, mem_selection]; simp⟩

theorem mem_changedAlong (h : delta.Reliable) (path : Option Path) :
    ∃ terms, changedAlong delta path = .ok terms ∧ ∀ x, x ∈ terms ↔ delta.Starts path x := by
  cases path with
  | none =>
    refine ⟨[], rfl, fun x => ?_⟩
    constructor
    · exact fun hx => absurd hx List.not_mem_nil
    · intro hex
      obtain ⟨p, hp, -⟩ := hex
      cases hp
  | some p =>
    refine ⟨_, by rw [changedAlong, h.added.hits, h.removed.hits]; rfl, fun x => ?_⟩
    rw [List.map_append, List.mem_append, Target.mem_map_scan, Target.mem_map_scan, ← exists_or]
    constructor
    · intro hex
      obtain ⟨st, hst⟩ := hex
      refine ⟨p, rfl, st, hst.imp And.left And.left, Path.links_iff.2 ?_⟩
      rcases hst with ⟨-, hfits, hfocus⟩ | ⟨-, hfits, hfocus⟩
      · exact ⟨(Pattern.fits_iff.1 hfits).2.1 _ rfl, hfocus⟩
      · exact ⟨(Pattern.fits_iff.1 hfits).2.1 _ rfl, hfocus⟩
    · intro hex
      obtain ⟨q, hq, st, hst, hlinks⟩ := hex
      obtain rfl := Option.some.inj hq
      obtain ⟨hpred, hfocus⟩ := Path.links_iff.1 hlinks
      have hfits : Pattern.fits { predicate := some p.relation } st = true :=
        Pattern.fits_iff.2 ⟨nofun, fun _ hx => hpred.trans (Option.some.inj hx), nofun⟩
      exact ⟨st, hst.imp (fun hm => ⟨hm, hfits, hfocus⟩) fun hm => ⟨hm, hfits, hfocus⟩⟩

/-- A scan for affected targets delivers what the selectors pick, as far as the delta marks it or
changes what follows on the path. -/
theorem select_affected (h : source.Reliable) (hd : delta.Reliable) (targets : List Target)
    (path : Option Path) :
    ∃ selection, (TargetScan.mk source targets (.affected delta path)).select = .ok selection ∧
      selection.Ascending ∧ ∀ x, x ∈ selection ↔
        x ∈ source.store.selection targets ∧
          ((∃ t ∈ targets, delta.Marks t x) ∨ delta.Starts path x) := by
  obtain ⟨marked, hmarked, hasc, hiff⟩ :=
    mem_selectAll (Target.mem_affected hd) targets Ordered.ascending_nil
  obtain ⟨starts, hstarts, hiff'⟩ := mem_changedAlong hd path
  -- of the candidates, those are kept that some selector picks
  have hfilter := Except.filterM_eq_ok (l := marked.addAll starts) fun x _ =>
    isSelected_eq h x targets
  refine ⟨_, by unfold select; simp only; rw [hmarked, hstarts]; exact hfilter,
    List.Pairwise.filter _ (hasc.addAll starts), fun x => ?_⟩
  rw [List.mem_filter, Selection.mem_addAll, hiff, hiff', decide_eq_true_eq, and_comm]
  simp

theorem ascending_selectAll {select : Target → Except Error Selection} :
    ∀ {targets : List Target} {acc selection : Selection}, acc.Ascending →
      selectAll select targets acc = .ok selection → selection.Ascending
  | [], _, _, hacc, h => Except.ok.inj h ▸ hacc
  | t :: rest, acc, selection, hacc, h => by
    rw [selectAll] at h
    cases ht : select t with
    | error e => rw [ht] at h; cases h
    | ok picked =>
      rw [ht] at h
      exact ascending_selectAll (hacc.addAll picked) h

/-- Of the candidates that a delta yields, a scan keeps those that the selectors pick. -/
theorem exists_candidates {path : Option Path} {targets : List Target} (h : source.Reliable)
    {selection : Selection}
    (hselect : (TargetScan.mk source targets (.affected delta path)).select = .ok selection) :
    ∃ candidates : Selection, candidates.Ascending ∧
      selection = candidates.filter fun x => x ∈ source.store.selection targets := by
  unfold select at hselect
  simp only at hselect
  cases hmarked : selectAll (Target.affected delta) targets [] with
  | error e => rw [hmarked] at hselect; cases hselect
  | ok marked =>
    cases hstarts : changedAlong delta path with
    | error e => rw [hmarked, hstarts] at hselect; cases hselect
    | ok starts =>
      have hfilter := Except.filterM_eq_ok (l := marked.addAll starts) fun x _ =>
        isSelected_eq h x targets
      rw [hmarked, hstarts] at hselect
      exact ⟨_, (ascending_selectAll Ordered.ascending_nil hmarked).addAll starts,
        Except.ok.inj (hselect.symm.trans hfilter)⟩

/-- What a scan of a source that answers delivers is in ascending order, also where the delta
refuses to answer some questions. -/
theorem ascending_select {scan : TargetScan} (h : scan.source.Reliable) {selection : Selection}
    (hselect : scan.select = .ok selection) : selection.Ascending := by
  obtain ⟨source, targets, mode⟩ := scan
  cases mode with
  | all => exact ascending_selectAll Ordered.ascending_nil hselect
  | affected delta path =>
    obtain ⟨candidates, hasc, rfl⟩ := exists_candidates h hselect
    exact List.Pairwise.filter _ hasc

/-- All of it is picked by a selector, also where the delta refuses to answer. -/
theorem mem_selection_of_select {scan : TargetScan} (h : scan.source.Reliable)
    {selection : Selection} (hselect : scan.select = .ok selection) {x : Term}
    (hx : x ∈ selection) : x ∈ scan.source.store.selection scan.targets := by
  obtain ⟨source, targets, mode⟩ := scan
  cases mode with
  | all =>
    obtain ⟨selection', hselect', -, hiff⟩ := select_all h targets
    obtain rfl := Except.ok.inj (hselect'.symm.trans hselect)
    exact (hiff x).1 hx
  | affected delta path =>
    obtain ⟨candidates, -, rfl⟩ := exists_candidates h hselect
    exact of_decide_eq_true (List.mem_filter.1 hx).2

end TargetScan

theorem Delta.touchesTargets_eq (h : delta.Reliable) : ∀ targets : List Target,
    ∃ b, delta.touchesTargets targets = .ok b ∧
      (b = true ↔ ∃ t ∈ targets, ∃ x, delta.Marks t x)
  | [] => ⟨false, rfl, by simp⟩
  | t :: rest => by
    obtain ⟨b, hb, hiff⟩ := t.touchedBy_eq h
    obtain ⟨b', hb', hiff'⟩ := touchesTargets_eq h rest
    refine ⟨_, Except.or_eq_ok hb hb', ?_⟩
    rw [Bool.or_eq_true, hiff, hiff', List.exists_mem_cons_iff]

/-- The delta touches a frame if it marks a term or changes a statement on the path. -/
theorem Frame.touched_eq (h : delta.Reliable) (frame : Frame) :
    ∃ b, frame.touched delta = .ok b ∧
      (b = true ↔ (∃ t ∈ frame.targets, ∃ x, delta.Marks t x) ∨
        ∃ x, delta.Starts frame.path x) := by
  obtain ⟨b, hb, hiff⟩ := Delta.touchesTargets_eq h frame.targets
  cases hp : frame.path with
  | none =>
    -- without a path, nothing starts from a term
    refine ⟨b || false, ?_, ?_⟩
    · unfold Frame.touched
      rw [hp]
      exact Except.or_eq_ok hb rfl
    · rw [Bool.or_false, hiff]
      refine ⟨.inl, fun hor => hor.resolve_right ?_⟩
      intro hex
      obtain ⟨x, p, hx, -⟩ := hex
      cases hx
  | some p =>
    obtain ⟨b', hb', hiff'⟩ := h.touches { predicate := some p.relation }
    refine ⟨b || b', ?_, ?_⟩
    · unfold Frame.touched
      rw [hp]
      exact Except.or_eq_ok hb hb'
    · rw [Bool.or_eq_true, hiff, hiff']
      refine or_congr_right ⟨?_, ?_⟩
      · intro hex
        obtain ⟨st, hst, hfits⟩ := hex
        exact ⟨p.focusOf st, p, rfl, st, hst,
          Path.links_iff.2 ⟨(Pattern.fits_iff.1 hfits).2.1 _ rfl, rfl⟩⟩
      · intro hex
        obtain ⟨x, q, hq, st, hst, hlinks⟩ := hex
        obtain rfl := Option.some.inj hq
        refine ⟨st, hst, Pattern.fits_iff.2 ⟨nofun, fun _ hx => ?_, nofun⟩⟩
        exact (Path.links_iff.1 hlinks).1.trans (Option.some.inj hx)

end GraphShapes
