import GraphShapes.Proofs.Planner.Negation

/-!
# Every target is judged by itself

Given targets from outside, a shape comes to the lines that each of the targets comes to alone, one
target after the other in ascending order (`planned_pointwise`). It does not matter in which order
the targets are handed out, how often, and with which columns besides, nor which pass it is. Where
all of them are selected, these are the lines of a bulk pass that are about them; so to ask only for
candidates is to leave out, and not to change, what a pass reports.

Lines are in strictly ascending order, and lines about a smaller target are smaller. So the order is
settled as soon as it is known which lines there are.
-/

namespace GraphShapes

namespace Row

/-- Some ascending list has exactly the lines of a set. -/
theorem exists_ascending (L : Finset (List Term)) :
    ∃ ls, Ordered.Ascending compareLines ls ∧ ∀ l, l ∈ ls ↔ l ∈ L :=
  ⟨Ordered.ofList compareLines L.toList, Ordered.ascending_insertAll Ordered.ascending_nil,
    fun _ => Ordered.mem_ofList.trans Finset.mem_toList⟩

/-- Ascending lines of one target after the other, the targets in ascending order. -/
theorem ascending_flatMap {terms : Selection} (hterms : terms.Ascending)
    {linesOf : Term → List (List Term)} (hhead : ∀ t, ∀ l ∈ linesOf t, l.head? = some t)
    (hlines : ∀ t, Ordered.Ascending compareLines (linesOf t)) :
    Ordered.Ascending compareLines (terms.flatMap linesOf) := by
  refine List.pairwise_flatMap.2 ⟨fun t _ => hlines t, hterms.imp fun {t u} htu => ?_⟩
  intro l hl l' hl'
  obtain ⟨others, rfl⟩ := List.head?_eq_some_iff.1 (hhead t l hl)
  obtain ⟨others', rfl⟩ := List.head?_eq_some_iff.1 (hhead u l' hl')
  -- the first column decides
  rw [compareLines_cons, htu]
  rfl

end Row

/-! ## Providers -/

namespace Provider

/-- What every request for the targets is answered with. -/
def answer : Provider → Except OpError Plan
  | splitter id layout => .ok (.reader id layout)
  | external answer => answer

/-- Whenever it is asked from now on, the provider hands out these rows, in this order. -/
def HandsOut (ss : Splitters) (provider : Provider) (rows : List Row) : Prop :=
  ∃ plan, provider.answer = .ok plan ∧
    ∀ ss' : Splitters, ss.Extends ss' → plan.feedIn ss' = .ok (Feed.ofList rows)

variable {provider : Provider} {ss : Splitters} {rows : List Row}

theorem comes_request {plan q : Plan} (hanswer : provider.answer = .ok plan)
    (h : plan.Mirrors ss q) : Planning.Comes provider.request ss (.ok q) Plan.Mirrors := by
  cases provider with
  | splitter id layout =>
    obtain rfl : Plan.reader id layout = plan := Except.ok.inj hanswer
    exact .pure h
  | external answer =>
    obtain rfl : answer = .ok plan := hanswer
    -- the request is counted
    intro d hd
    subst hd
    exact ⟨{ d with requests := d.requests + 1 }, .refl, .inr ⟨plan, q, rfl, rfl, h⟩⟩

/-- What is handed out stands for a plan that lists it. -/
theorem HandsOut.exists_mirrors (h : provider.HandsOut ss rows) :
    ∃ q : Plan, provider.Mirrors ss (.ok q) ∧ q.Lists rows := by
  obtain ⟨plan, hanswer, hfeed⟩ := h
  refine ⟨.values rows plan.layout, fun hext => comes_request hanswer ?_, rfl⟩
  exact ⟨rfl, fun hext' => hfeed _ (hext.trans hext')⟩

/-- A producer of fixed rows hands them out. -/
theorem handsOut_values (ss : Splitters) (rows : List Row) (layout : Layout) :
    (external (.ok (.values rows layout))).HandsOut ss rows :=
  ⟨_, rfl, fun _ _ => rfl⟩

end Provider

/-! ## Given targets -/

namespace Shape

/-- The lines that the shape comes to, in the order in which they come. -/
def collectLines (ctx : Context) (frame : Frame) (targets : Option Provider) (negate : Bool)
    (draft : Draft) (s : Shape) : Except PassError (List (List Term)) :=
  (s.collect ctx frame targets negate draft).map fun rows => rows.map Row.line

/-- What the shape tree says about each single target, as an ascending list. -/
theorem exists_linesOf (G : Store) (s : Shape) (path : Option Path) (negate : Bool) :
    ∃ linesOf : Term → List (List Term), (∀ t, Ordered.Ascending Row.compareLines (linesOf t)) ∧
      ∀ t l, l ∈ linesOf t ↔ Table.HasLine (s.rows G {t} path negate) l := by
  choose linesOf hascending hmem using fun t =>
    Row.exists_ascending (Table.linesOf (s.rows G {t} path negate))
  exact ⟨linesOf, hascending, fun t l => (hmem t l).trans Table.mem_linesOf⟩

section Given

variable {ctx : Context} {G : Store} (hG : ctx.source = .ofStore G) {s : Shape}
  (hw : s.wellFormed = true) (frame : Frame) (negate : Bool) {draft : Draft} {provider : Provider}
  {rows : List Row} (hrows : provider.HandsOut draft.splitters rows)
include hG hw hrows

/-- For given targets, the lines that come are the ascending list of what the shape tree says about
these targets. -/
theorem collectLines_among {lines : List (List Term)}
    (hlines : Ordered.Ascending Row.compareLines lines)
    (hmem : ∀ l, l ∈ lines ↔ Table.HasLine
      (s.rows G (rows.map Row.target).toFinset frame.path negate) l) :
    s.collectLines ctx frame (some provider) negate draft = .ok lines := by
  have hs : ctx.source.Reliable := hG ▸ Source.reliable_ofStore G
  obtain ⟨q, hmirrors, hlists⟩ := hrows.exists_mirrors
  obtain ⟨collected, hcollect, hstrict, hcollected⟩ :=
    collect_of_gives (.some hmirrors) (gives_among hs hlists s hw frame negate)
  unfold collectLines
  rw [hcollect]
  refine congrArg Except.ok (hstrict.ascending.eq_of_mem_iff hlines fun l => ?_)
  rw [hmem, List.mem_map, ← Row.mem_lines, hcollected, Table.mem_linesOf, hG]
  rfl

/-- The lines come target by target. -/
theorem collectLines_flatMap {linesOf : Term → List (List Term)}
    (hascending : ∀ t, Ordered.Ascending Row.compareLines (linesOf t))
    (hmem : ∀ t l, l ∈ linesOf t ↔ Table.HasLine (s.rows G {t} frame.path negate) l) :
    s.collectLines ctx frame (some provider) negate draft =
      .ok ((Selection.ofList (rows.map Row.target)).flatMap linesOf) := by
  refine collectLines_among hG hw frame negate hrows ?_ fun l => ?_
  · refine Row.ascending_flatMap (Ordered.ascending_insertAll Ordered.ascending_nil) ?_ hascending
    intro t l hl
    obtain ⟨u, hu, hlu⟩ := exists_head?_of_hasLine ((hmem t l).1 hl)
    exact Finset.mem_singleton.1 hu ▸ hlu
  · rw [List.mem_flatMap, hasLine_rows_iff]
    refine exists_congr fun t => and_congr ?_ (hmem t l)
    rw [Selection.mem_ofList, List.mem_toFinset]

/-- The lines about selected targets are among the rows of a bulk pass. -/
theorem collectLines_filter (hselected : ∀ r ∈ rows, r.target ∈ G.selection frame.targets)
    {all : List Row} (hall : Row.Strict all) (hlines : Row.lines all =
      Table.linesOf (s.rows G (G.selection frame.targets) frame.path negate)) :
    s.collectLines ctx frame (some provider) negate draft =
      .ok ((all.filter fun r => r.target ∈ rows.map Row.target).map Row.line) := by
  have hsubset : (rows.map Row.target).toFinset ⊆ G.selection frame.targets := by
    intro t ht
    obtain ⟨r, hr, rfl⟩ := List.mem_map.1 (List.mem_toFinset.1 ht)
    exact hselected r hr
  -- both sides ascend strictly, so it is enough to compare them as sets
  have hfiltered : Row.Strict (all.filter fun r => r.target ∈ rows.map Row.target) :=
    List.Pairwise.filter _ hall
  refine collectLines_among hG hw frame negate hrows hfiltered.ascending fun l => ?_
  rw [hasLine_rows_of_subset hsubset, ← Table.mem_linesOf, ← hlines, Row.mem_lines, List.mem_map]
  constructor
  · intro hex
    obtain ⟨r, hr, rfl⟩ := hex
    obtain ⟨hr, ht⟩ := List.mem_filter.1 hr
    exact ⟨⟨r, hr, rfl⟩, r.target, List.mem_toFinset.2 (of_decide_eq_true ht), rfl⟩
  · intro hex
    obtain ⟨⟨r, hr, rfl⟩, t, ht, hrt⟩ := hex
    obtain rfl : r.target = t := Option.some.inj hrt
    exact ⟨r, List.mem_filter.2 ⟨hr, decide_eq_true (List.mem_toFinset.1 ht)⟩, rfl⟩

end Given

/-- The lines for given targets are those that each of the targets comes to alone, one after the
other in ascending order, and each alone comes to what the shape tree says about it. If all the
targets are selected, they are the lines about these targets of a bulk pass. -/
theorem planned_pointwise {ctx : Context} {G : Store} (hG : ctx.source = .ofStore G) {s : Shape}
    (hw : s.wellFormed = true) (frame : Frame) (negate : Bool) {draft : Draft}
    {provider : Provider} {rows : List Row} (hrows : provider.HandsOut draft.splitters rows) :
    (∃ linesOf : Term → List (List Term),
      (∀ t l, l ∈ linesOf t ↔ Table.HasLine (s.rows G {t} frame.path negate) l) ∧
      (∀ (t : Term) (draft : Draft) (alone : Provider) (rows : List Row),
        alone.HandsOut draft.splitters rows → (rows.map Row.target).toFinset = {t} →
          s.collectLines ctx frame (some alone) negate draft = .ok (linesOf t)) ∧
      s.collectLines ctx frame (some provider) negate draft =
        .ok ((Selection.ofList (rows.map Row.target)).flatMap linesOf)) ∧
    ∀ (bulk : Context) (draft' : Draft), bulk.source = .ofStore G → bulk.isBulk = true →
      (∀ r ∈ rows, r.target ∈ G.selection frame.targets) →
        ∃ all, s.collect bulk frame none negate draft' = .ok all ∧
          s.collectLines ctx frame (some provider) negate draft =
            .ok ((all.filter fun r => r.target ∈ rows.map Row.target).map Row.line) := by
  constructor
  · obtain ⟨linesOf, hascending, hmem⟩ := exists_linesOf G s frame.path negate
    refine ⟨linesOf, hmem, fun t draft alone rows hrows ht => ?_,
      collectLines_flatMap hG hw frame negate hrows hascending hmem⟩
    -- a single target comes to the same through every provider
    refine collectLines_among hG hw frame negate hrows (hascending t) fun l => ?_
    rw [ht, hmem]
  · intro bulk draft' hbulk hb hselected
    have hs : bulk.source.Reliable := hbulk ▸ Source.reliable_ofStore G
    obtain ⟨all, hcollect, hstrict, hall⟩ := collect_bulk hs hb hw frame negate draft'
    rw [congrArg Source.store hbulk] at hall
    exact ⟨all, hcollect, collectLines_filter hG hw frame negate hrows hselected hstrict hall⟩

/-- Two targets, the larger one first and again at the end, and with more columns than it needs. -/
def repeatedTargets : List Row :=
  [⟨.iri "b", [.str "x"], .delta, [⟨7⟩]⟩, ⟨.iri "a", [], .base, []⟩, ⟨.iri "b", [], .base, []⟩]

/-- A pass over a commit that changes nothing evaluates the disjunction for the given targets all
the same, and one of them violates it. -/
theorem planned_pointwise_repeated :
    let ctx : Context :=
      { source := .ofStore mixedValues, delta := some ⟨.ofStore .empty, .ofStore .empty⟩ }
    let frame : Frame := ⟨[.subjectsOf (.iri "p"), .nodes [.iri "b"]], none⟩
    let handing : List Row → Provider := fun rows => .external (.ok (.values rows .aggregated))
    let shape : Shape := disj valuesHead numbersOrSingle
    let lines : List Row → Except PassError (List (List Term)) := fun rows =>
      shape.collectLines ctx frame (some (handing rows)) false {}
    ∃ forA forB all, [.iri "a"] ∈ forA ∧ lines [⟨.iri "a", [], .base, []⟩] = .ok forA ∧
      lines [⟨.iri "b", [], .base, []⟩] = .ok forB ∧ lines repeatedTargets = .ok (forA ++ forB) ∧
      shape.collect (.bulk (.ofStore mixedValues) {}) frame none false {} = .ok all ∧
      lines repeatedTargets = .ok
        ((all.filter fun r => r.target ∈ repeatedTargets.map Row.target).map Row.line) := by
  intro ctx frame handing shape lines
  have hhands : ∀ rows : List Row, (handing rows).HandsOut #[] rows := fun rows =>
    Provider.handsOut_values #[] rows .aggregated
  obtain ⟨⟨linesOf, hmem, halone, hlines⟩, hbulk⟩ := @planned_pointwise ctx mixedValues rfl
    shape (by decide) frame false {} _ _ (hhands repeatedTargets)
  obtain ⟨all, hall, hfiltered⟩ :=
    hbulk (.bulk (.ofStore mixedValues) {}) {} rfl rfl (by decide)
  have horder : Selection.ofList (repeatedTargets.map Row.target) = [.iri "a", .iri "b"] := by
    decide
  rw [horder, List.flatMap_cons, List.flatMap_cons, List.flatMap_nil, List.append_nil] at hlines
  have hrows : shape.rows mixedValues {.iri "a"} frame.path false =
      some ⟨.aggregated, {[.iri "a"]}⟩ := by decide
  have hviolates : [.iri "a"] ∈ linesOf (.iri "a") :=
    (hmem _ _).2 ⟨_, hrows, Finset.mem_singleton_self _⟩
  exact ⟨linesOf (.iri "a"), linesOf (.iri "b"), all, hviolates,
    halone _ {} _ _ (hhands _) (by decide), halone _ {} _ _ (hhands _) (by decide), hlines, hall,
    hfiltered⟩

end Shape

end GraphShapes
