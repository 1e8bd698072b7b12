import GraphShapes.Proofs.Planner.Honest
import GraphShapes.Proofs.Planner.Pointwise

/-!
# The order and the origin of planned rows

What comes of a planned shape is in strictly ascending order and is what the plan declares
(`Shape.planned_honest`): with all columns, each row tells a value that a constraint of the shape
rejects and the statement of the graph that leads to it; otherwise no row tells a statement.

The pass may be any pass, also over a delta that refuses to answer, and targets may be given by
anything that always gives the same: `Provider.Settled` asks for no order of them, and not even that
they can be read. Where the delta answers and the targets can be read, rows do come.
-/

namespace GraphShapes

namespace Provider

variable {provider : Provider} {ss : Splitters}

/-- What the provider hands out does not depend on splitters that are allotted later. -/
def Settled (ss : Splitters) (provider : Provider) : Prop :=
  ∀ plan, provider.answer = .ok plan → ∀ ss' : Splitters, ss.Extends ss' →
    plan.feedIn ss' = plan.feedIn ss

theorem HandsOut.settled {rows : List Row} (h : provider.HandsOut ss rows) :
    provider.Settled ss := by
  intro plan hplan ss' hext
  obtain ⟨plan', hplan', hfeed⟩ := h
  obtain rfl := Except.ok.inj (hplan'.symm.trans hplan)
  exact (hfeed ss' hext).trans (hfeed ss .refl).symm

/-- Every feed is that of a producer from outside. -/
theorem exists_probe (delivered : Except OpError RowFeed) (layout : Layout) :
    ∃ probe : Probe, probe.layout = layout ∧ probe.meaning = delivered := by
  cases delivered with
  | error e => exact ⟨⟨"", [], layout, some e, none⟩, rfl, rfl⟩
  | ok feed =>
    have hfeed : (∃ rows, feed = Feed.ofList rows) ∨ ∃ e rows, feed = Feed.breaking e rows := by
      induction feed with
      | done => exact .inl ⟨[], rfl⟩
      | failed e => exact .inr ⟨e, [], rfl⟩
      | next row rest ih =>
        rcases ih with ⟨rows, rfl⟩ | ⟨e, rows, rfl⟩
        · exact .inl ⟨row :: rows, rfl⟩
        · exact .inr ⟨e, row :: rows, rfl⟩
    rcases hfeed with ⟨rows, rfl⟩ | ⟨e, rows, rfl⟩
    · exact ⟨⟨"", rows, layout, none, none⟩, rfl, rfl⟩
    · refine ⟨⟨"", rows, layout, none, some (rows.length, e)⟩, rfl, ?_⟩
      simp [Probe.meaning, Probe.feed]

/-- What is settled stands for a plan without readers. -/
theorem Settled.exists_mirrors_ok (h : provider.Settled ss) {plan : Plan}
    (hanswer : provider.answer = .ok plan) : ∃ q : Plan, provider.Mirrors ss (.ok q) := by
  obtain ⟨probe, hlayout, hmeaning⟩ := exists_probe (plan.feedIn ss) plan.layout
  refine ⟨.probe probe, fun hext => comes_request hanswer ⟨hlayout.symm, fun hext' => ?_⟩⟩
  exact (h plan hanswer _ (hext.trans hext')).trans hmeaning.symm

/-- So whoever is settled mirrors an offer, be it a refusal. -/
theorem Settled.exists_mirrors (h : provider.Settled ss) :
    ∃ given : Offer, provider.Mirrors ss given := by
  cases hanswer : provider.answer with
  | ok plan =>
    obtain ⟨q, hq⟩ := h.exists_mirrors_ok hanswer
    exact ⟨.ok q, hq⟩
  | error e =>
    cases provider with
    | splitter id layout => cases hanswer
    | external answer =>
      obtain rfl : answer = .error e := hanswer
      -- the request is counted before it is refused
      refine ⟨.error e, fun _ d hd => ?_⟩
      subst hd
      exact ⟨{ d with requests := d.requests + 1 }, .refl, .inl ⟨.op e, rfl, rfl⟩⟩

theorem exists_givenMirrors {targets : Option Provider}
    (h : ∀ provider, targets = some provider → provider.Settled ss) :
    ∃ given, GivenMirrors ss targets given := by
  cases targets with
  | none => exact ⟨none, .none⟩
  | some provider =>
    obtain ⟨given, hgiven⟩ := (h provider rfl).exists_mirrors
    exact ⟨some given, .some hgiven⟩

end Provider

namespace Shape

/-- Whatever the shape is planned for, its plan without splitters is honest. -/
theorem ensures_honest {ctx : Context} (hs : ctx.source.Reliable) (s : Shape) (frame : Frame)
    (given : Option Offer) (negate : Bool) :
    Unshared.Ensures (s.unshared ctx frame given negate) fun p =>
      ∀ q ∈ p, q.Honest ctx.source.store (s.HasLeaf frame.path) :=
  s.ensures_kept (Unshared.kept_honest hs frame.targets (s.HasLeaf frame.path)) frame.path negate
    (fun _ _ hl => hl) given fun _ _ => trivial

/-- The rows that come of a planned shape are in strictly ascending order. If the plan declares all
columns, every row is a target, a value that an active constraint of the shape rejects on the path
that holds there, and the statement of the graph that links the two; if not, no row tells a
statement. And rows do come of a well-formed shape, if the delta answers and the targets that are
given, if any, can be read. -/
theorem planned_honest {ctx : Context} {G : Store} (hG : ctx.source = .ofStore G) (s : Shape)
    (frame : Frame) (negate : Bool) {draft : Draft} {targets : Option Provider}
    (htargets : ∀ provider, targets = some provider → provider.Settled draft.splitters) :
    (∀ plan draft' rows,
      (s.plan ctx frame targets negate).run.run draft = (.ok (some plan), draft') →
      plan.collect draft'.splitters = .ok rows →
        Row.Strict rows ∧
        (plan.layout = .tripleBased → ∀ r ∈ rows, ∃ (t : Term) (p : Path) (c : Constraint)
          (st : Statement), s.HasLeaf frame.path (some p) c ∧ c.isValueLevel = true ∧
            c.accepts (p.valueOf st) = false ∧ st ∈ G.toList ∧ p.links t st = true ∧
            r.line = [t, p.valueOf st, st.quoted]) ∧
        (plan.layout = .aggregated → ∀ r ∈ rows, r.line.length ≤ 2 ∧ r.provenance? = none)) ∧
    (s.wellFormed = true → (∀ delta, ctx.restriction = some delta → delta.Reliable) →
      (∀ provider, targets = some provider → ∃ rows, provider.HandsOut draft.splitters rows) →
        ∃ rows, s.collect ctx frame targets negate draft = .ok rows) := by
  have hs : ctx.source.Reliable := hG ▸ Source.reliable_ofStore G
  have hstore : ctx.source.store = G := congrArg Source.store hG
  constructor
  · intro plan draft' rows hplan hcollect
    obtain ⟨given, hgiven⟩ := Provider.exists_givenMirrors htargets
    -- the same plan without splitters has the same rows, and about it there is the induction
    obtain ⟨q, hq, hlayout, hitems⟩ := exists_items hgiven hplan hcollect
    obtain ⟨hstrict, hrejections, hshort⟩ := s.ensures_honest hs frame given negate _ hq q rfl
    rw [hitems] at hstrict hrejections hshort
    rw [← hlayout] at hrejections hshort
    rw [hstore] at hrejections
    refine ⟨hstrict, hrejections, fun hl r hr => ⟨hshort hl r hr, ?_⟩⟩
    -- the provenance would be a third column
    have hothers : r.others.length ≤ 1 := Nat.le_of_succ_le_succ (hshort hl r hr)
    rw [Row.provenance?, List.getElem?_eq_none hothers]
    rfl
  · intro hw hdelta hreadable
    cases targets with
    | none =>
      obtain ⟨rows, hcollect, -⟩ := collect_of_gives .none
        (s.realizes ⟨hs, hdelta⟩ frame.targets hw frame.path negate).found
      exact ⟨rows, hcollect⟩
    | some provider =>
      obtain ⟨given, hrows⟩ := hreadable provider rfl
      obtain ⟨q, hmirrors, hlists⟩ := hrows.exists_mirrors
      obtain ⟨rows, hcollect, -⟩ :=
        collect_of_gives (.some hmirrors) (gives_among hs hlists s hw frame negate)
      exact ⟨rows, hcollect⟩

/-- Every value is a text, and it is this one. -/
def onlyThisText : Shape :=
  conj valuesHead [constraint { id := ⟨11⟩ } (.datatype .str),
    constraint { id := ⟨12⟩ } (.oneOf [.str "x"])]

/-- The target is given with a value of its own, and nobody can ask for the delta. The number
violates both members, and it is told once. -/
theorem planned_honest_number :
    let refused : Source := .failing .empty none none (.unreadable "gone")
    let ctx : Context := { source := .ofStore mixedValues, delta := some ⟨refused, refused⟩ }
    let given : List Row := [⟨.iri "a", [.str "x"], .delta, [⟨7⟩]⟩]
    let targets : Option Provider := some (.external (.ok (.values given .tripleBased)))
    let number : Statement := ⟨.iri "a", .iri "p", .int 5⟩
    ∃ plan draft' row, (onlyThisText.plan ctx ⟨[], none⟩ targets false).run.run {} =
        (.ok (some plan), draft') ∧ plan.layout = .tripleBased ∧
      plan.collect draft'.splitters = .ok [row] ∧ row.line = [.iri "a", .int 5, number.quoted] ∧
      Row.Strict [row] ∧ ∃ (t : Term) (p : Path) (c : Constraint) (st : Statement),
        onlyThisText.HasLeaf none (some p) c ∧ c.isValueLevel = true ∧
          c.accepts (p.valueOf st) = false ∧ st ∈ mixedValues.toList ∧ p.links t st = true ∧
          row.line = [t, p.valueOf st, st.quoted] := by
  intro refused ctx given targets number
  have hsettled : ∀ provider, targets = some provider → provider.Settled #[] := by
    intro provider hprovider
    obtain rfl := Option.some.inj hprovider
    exact (Provider.handsOut_values #[] given .tripleBased).settled
  obtain ⟨hhonest, -⟩ :=
    @planned_honest ctx mixedValues rfl onlyThisText ⟨[], none⟩ false {} targets hsettled
  obtain ⟨plan, draft', hplan, hlayout, hlines⟩ :
      ∃ plan draft', (onlyThisText.plan ctx ⟨[], none⟩ targets false).run.run {} =
        (.ok (some plan), draft') ∧ plan.layout = .tripleBased ∧
          (plan.collect draft'.splitters).toOption.map (List.map Row.line) =
            some [[.iri "a", .int 5, number.quoted]] := ⟨_, _, rfl, rfl, by decide +kernel⟩
  cases hcollect : plan.collect draft'.splitters with
  | error e =>
    rw [hcollect] at hlines
    cases hlines
  | ok rows =>
    rw [hcollect] at hlines
    obtain ⟨row, rfl, hline⟩ := List.map_eq_singleton_iff.1 (Option.some.inj hlines)
    obtain ⟨hstrict, hrows, -⟩ := hhonest plan draft' [row] hplan hcollect
    exact ⟨plan, draft', row, hplan, hlayout, hcollect, hline, hstrict,
      hrows hlayout row (List.mem_singleton_self row)⟩

end Shape

end GraphShapes
