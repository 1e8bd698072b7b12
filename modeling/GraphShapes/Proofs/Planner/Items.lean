import GraphShapes.Proofs.Planner.Leaf
import GraphShapes.Proofs.Planner.Sharing
import GraphShapes.Proofs.RowFeed.Items

/-!
# The rows of a plan before it fails

`Plan.items` is what a plan without readers delivers before it ends or breaks off; a plan that
cannot be opened delivers nothing. For every operator it is said in which order its rows come, as
far as the planner relies on it, and which rows of the inputs they are made of.
-/

namespace GraphShapes

namespace Plan

variable {p q : Plan} {row : Row}

/-- The rows of a plan without readers, up to its end or its failure. -/
def items (p : Plan) : List Row :=
  match p.delivery with
  | .ok feed => feed.items
  | .error _ => []

/-- A plan that can be opened delivers the items of its feed. -/
theorem items_of_delivery {feed : RowFeed} (h : p.delivery = .ok feed) : p.items = feed.items := by
  rw [items, h]

/-- A plan that delivers just these rows has them as items. -/
theorem Lists.items_eq {rows : List Row} (h : p.Lists rows) : p.items = rows := by
  rw [items_of_delivery h, Feed.items_ofList]

/-- What an operator makes of the feed of its input decides about its rows. -/
theorem items_bind {f : RowFeed → RowFeed} (h : p.delivery = do return f (← q.delivery))
    {g : List Row → List Row} (hnil : g [] = []) (hf : ∀ feed, (f feed).items = g feed.items) :
    p.items = g q.items := by
  unfold items
  rw [h]
  cases q.delivery with
  | error e => exact hnil.symm
  | ok feed => exact hf feed

theorem items_tag (p : Plan) (id : ShapeId) : (tag p id).items = p.items.map (Row.tag id) :=
  items_bind (by rw [delivery, meaning, delivery]) rfl (RowFeed.items_tag id)

theorem items_trim (p : Plan) (n : Nat) : (trim p n).items = p.items.map (Row.trim n) :=
  items_bind (by rw [delivery, meaning, delivery]) rfl (RowFeed.items_trim n)

theorem items_filter (p : Plan) (label : String) (keep : Row → Bool) :
    (filter p label keep).items = p.items.filter keep :=
  items_bind (by rw [delivery, meaning, delivery]) rfl (Feed.items_filter keep)

theorem items_unique (p : Plan) (width : Option Nat) :
    (unique p width).items = p.items.eraseDupsBy (RowFeed.sameKey width) :=
  items_bind (by rw [delivery, meaning, delivery]) rfl RowFeed.items_unique

theorem items_relabel (p : Plan) (layout : Layout) : (relabel p layout).items = p.items := by
  rw [items, delivery, meaning_relabel]
  rfl

/-- Every row is replaced by a row for each value of its target. -/
theorem items_valuesOf {source : Source} (h : source.Reliable) (p : Plan) (path : Option Path) :
    (valuesOf p source path).items = p.items.flatMap (valueRows source.store path) :=
  items_bind (by rw [delivery, meaning, delivery]) rfl fun _ =>
    Feed.items_expand fun row _ => rowsOf_eq_ok h path row

/-- Sorted rows are all rows of the input, or none if the input fails. -/
theorem items_sort (p : Plan) :
    (sort p).items = [] ∨ (sort p).items = Ordered.sort Row.compare p.items := by
  unfold items delivery
  rw [meaning]
  cases p.meaning fun _ => .ok .done with
  | error e => exact .inl rfl
  | ok feed => exact RowFeed.items_sorted feed

/-- Of sorted rows, those that are no repetitions ascend strictly. -/
theorem strict_unique (h : Row.Sorted p.items) : Row.Strict (unique p none).items := by
  rw [items_unique]
  exact RowFeed.strict_eraseDupsBy h

/-- Nothing is delivered that was not there before. -/
theorem mem_unique {width : Option Nat} (h : row ∈ (unique p width).items) : row ∈ p.items := by
  rw [items_unique] at h
  exact (RowFeed.eraseDupsBy_sublist _).mem h

/-! ## Unions -/

/-- A union that can be opened merges the rows of its inputs. -/
theorem items_union (ps : List Plan) : (union ps).items = [] ∨
    ∃ feeds : List RowFeed, feeds.map Feed.items = ps.map items ∧
      (union ps).items = (RowFeed.mergeAll feeds).items := by
  -- the inputs are opened one after the other, by induction over them
  have hmeanings : ∀ {ps : List Plan} {feeds : List RowFeed},
      meanings (fun _ => .ok .done) ps = .ok feeds → feeds.map Feed.items = ps.map items := by
    intro ps
    induction ps with
    | nil =>
      intro feeds h
      obtain rfl := Except.ok.inj h
      rfl
    | cons p ps ih =>
      intro feeds h
      rw [meanings] at h
      cases hp : p.meaning fun _ => .ok .done with
      | error e => rw [hp] at h; cases h
      | ok feed =>
        cases hps : meanings (fun _ => .ok .done) ps with
        | error e => rw [hp, hps] at h; cases h
        | ok rest =>
          rw [hp, hps] at h
          obtain rfl := Except.ok.inj h
          rw [List.map_cons, List.map_cons, ih hps, items_of_delivery hp]
  unfold items delivery
  rw [meaning]
  cases h : meanings (fun _ => .ok .done) ps with
  | error e => exact .inl rfl
  | ok feeds => exact .inr ⟨feeds, hmeanings h, rfl⟩

/-- A union of sorted inputs is sorted. -/
theorem sorted_union {ps : List Plan} (h : ∀ p ∈ ps, Row.Sorted p.items) :
    Row.Sorted (union ps).items := by
  rcases items_union ps with hnil | ⟨feeds, hfeeds, hitems⟩
  · rw [hnil]
    exact .nil
  · rw [hitems]
    refine RowFeed.sorted_mergeAll fun f hf => ?_
    obtain ⟨p, hp, hpf⟩ := List.mem_map.1 (hfeeds ▸ List.mem_map_of_mem hf)
    exact hpf ▸ h p hp

/-- Its rows are those of its inputs. -/
theorem mem_union {ps : List Plan} (h : row ∈ (union ps).items) : ∃ p ∈ ps, row ∈ p.items := by
  rcases items_union ps with hnil | ⟨feeds, hfeeds, hitems⟩
  · rw [hnil] at h
    exact absurd h List.not_mem_nil
  · rw [hitems] at h
    obtain ⟨f, hf, hrow⟩ := RowFeed.mem_mergeAll h
    obtain ⟨p, hp, hpf⟩ := List.mem_map.1 (hfeeds ▸ List.mem_map_of_mem hf)
    exact ⟨p, hp, hpf ▸ hrow⟩

/-! ## Joins -/

/-- A join that can be opened joins the feeds of its inputs. -/
theorem items_join {r : Plan} {f : RowFeed → RowFeed → RowFeed}
    (h : r.delivery = do let l ← p.delivery; return f l (← q.delivery)) :
    r.items = [] ∨ ∃ l l', p.items = l.items ∧ q.items = l'.items ∧
      r.items = (f l l').items := by
  unfold items
  rw [h]
  cases p.delivery with
  | error e => exact .inl rfl
  | ok l =>
    cases q.delivery with
    | error e => exact .inl rfl
    | ok l' => exact .inr ⟨l, l', rfl, rfl, rfl⟩

/-- What an equality join delivers depends on the items of its inputs and on where these end, if it
can be opened at all. -/
theorem items_equalsJoin (p q : Plan) (allColumns : Bool) : (equalsJoin p q allColumns).items = [] ∨
    ∃ l l', p.items = l.items ∧ q.items = l'.items ∧ (equalsJoin p q allColumns).items =
      (RowFeed.equalsJoin (joinWidth allColumns) l l').items :=
  items_join (by rw [delivery, meaning]; rfl)

/-- The same for an inner join. -/
theorem items_innerJoin (p q : Plan) : (innerJoin p q).items = [] ∨
    ∃ l l', p.items = l.items ∧ q.items = l'.items ∧
      (innerJoin p q).items = (RowFeed.innerJoin l l').items :=
  items_join (by rw [delivery, meaning]; rfl)

/-- The lines of an equality join come in the order of the left ones. -/
theorem sublist_lines_equalsJoin (hp : Row.Strict p.items) (hq : Row.Strict q.items) :
    ((equalsJoin p q true).items.map Row.line).Sublist (p.items.map Row.line) := by
  rcases items_equalsJoin p q true with hnil | ⟨l, l', hl, hl', hitems⟩
  · rw [hnil]
    exact List.nil_sublist _
  · rw [hl] at hp
    rw [hl'] at hq
    rw [hitems, hl]
    exact RowFeed.sublist_lines_equalsJoin hp hq

/-- Every row of it combines a left row and a right one. -/
theorem mem_equalsJoin {allColumns : Bool} (h : row ∈ (equalsJoin p q allColumns).items) :
    ∃ a ∈ p.items, ∃ b ∈ q.items, ∃ n, row = RowFeed.combine n a b := by
  rcases items_equalsJoin p q allColumns with hnil | ⟨l, l', hl, hl', hitems⟩
  · rw [hnil] at h
    exact absurd h List.not_mem_nil
  · rw [hitems] at h
    rw [hl, hl']
    exact RowFeed.mem_equalsJoin h

/-- The lines of an inner join are targets of the left rows, in their order. -/
theorem sublist_lines_innerJoin (p q : Plan) :
    ((innerJoin p q).items.map Row.line).Sublist (p.items.map fun a => [a.target]) := by
  rcases items_innerJoin p q with hnil | ⟨l, l', hl, -, hitems⟩
  · rw [hnil]
    exact List.nil_sublist _
  · rw [hitems, hl]
    exact RowFeed.sublist_lines_innerJoin l l'

/-- Every row of it is a left row, cut to its target, that has taken up what some right rows carry
along. -/
theorem mem_innerJoin (h : row ∈ (innerJoin p q).items) :
    ∃ a ∈ p.items, ∃ others : List Row, (∀ b ∈ others, b ∈ q.items) ∧
      row = others.foldl Row.absorb (a.trim 1) := by
  rcases items_innerJoin p q with hnil | ⟨l, l', hl, hl', hitems⟩
  · rw [hnil] at h
    exact absurd h List.not_mem_nil
  · rw [hitems] at h
    rw [hl, hl']
    exact RowFeed.mem_innerJoin h

/-- The distinct targets of a plan are joined one to one. -/
theorem mem_innerJoin_distinctTargets (h : row ∈ (innerJoin p q.distinctTargets).items) :
    ∃ a ∈ p.items, ∃ b ∈ q.distinctTargets.items, row = (a.trim 1).absorb b := by
  rcases items_innerJoin p q.distinctTargets with hnil | ⟨l, l', hl, hl', hitems⟩
  · rw [hnil] at h
    exact absurd h List.not_mem_nil
  · rw [hitems] at h
    have hdistinct : q.distinctTargets.items.Pairwise fun a b => a.target ≠ b.target := by
      rw [distinctTargets, trimTo, items_unique, items_trim]
      refine (RowFeed.pairwise_eraseDupsBy _).imp_of_mem fun {a b} ha hb hne => ?_
      obtain ⟨a', -, rfl⟩ := List.mem_map.1 ((RowFeed.eraseDupsBy_sublist _).mem ha)
      obtain ⟨b', -, rfl⟩ := List.mem_map.1 ((RowFeed.eraseDupsBy_sublist _).mem hb)
      exact fun htarget => hne (congrArg (fun t => [t]) htarget)
    rw [hl, hl']
    exact RowFeed.mem_innerJoin_of_distinct (hl' ▸ hdistinct) h

/-- An anti join delivers left rows, in their order. -/
theorem sublist_antiJoin (p q : Plan) : (antiJoin p q).items.Sublist p.items := by
  rcases items_join (p := p) (q := q) (r := antiJoin p q) (f := RowFeed.antiJoin)
    (by rw [delivery, meaning]; rfl) with hnil | ⟨l, l', hl, -, hitems⟩
  · rw [hnil]
    exact List.nil_sublist _
  · rw [hitems, hl]
    exact RowFeed.sublist_antiJoin l l'

/-- A count delivers targets of left rows, in their order. -/
theorem sublist_countValues (p q : Plan) (label : String) (test : List Term → Bool) :
    (countValues p q label test).items.Sublist (p.items.map (Row.trim 1)) := by
  rcases items_join (p := p) (q := q) (r := countValues p q label test)
    (f := RowFeed.countValues test) (by rw [delivery, meaning]; rfl)
    with hnil | ⟨l, l', hl, -, hitems⟩
  · rw [hnil]
    exact List.nil_sublist _
  · rw [hitems, hl]
    exact RowFeed.sublist_countValues test l l'

end Plan

/-! ## Targets -/

/-- A scan of a source that answers delivers single targets in ascending order, whatever becomes of
the delta. -/
theorem TargetScan.items_eq (scan : TargetScan) (h : scan.source.Reliable) :
    ∃ terms : Selection, terms.Ascending ∧
      (Plan.targetScan scan).items = terms.map fun t => { target := t, scope := scan.scope } := by
  have hdelivery : (Plan.targetScan scan).delivery = .ok scan.rows := rfl
  rw [Plan.items_of_delivery hdelivery, rows]
  cases hselect : scan.select with
  | error e => exact ⟨[], Ordered.ascending_nil, rfl⟩
  | ok terms => exact ⟨terms, ascending_select h hselect, Feed.items_ofList _⟩

/-! ## Shapes -/

/-- The rows that come of a planned shape are those of its plan without splitters. -/
theorem Shape.exists_items {ctx : Context} {s : Shape} {frame : Frame} {targets : Option Provider}
    {given : Option Offer} {negate : Bool} {draft draft' : Draft} {plan : Plan} {rows : List Row}
    (hgiven : GivenMirrors draft.splitters targets given)
    (hplan : (s.plan ctx frame targets negate).run.run draft = (.ok (some plan), draft'))
    (hcollect : plan.collect draft'.splitters = .ok rows) :
    ∃ q, s.unshared ctx frame given negate = .ok (some q) ∧ plan.layout = q.layout ∧
      q.items = rows := by
  obtain ⟨d, -, ⟨e, hrun, -⟩ | ⟨p, p', hrun, hp', hmirrors⟩⟩ :=
    s.plan_comes ctx negate hgiven draft rfl
  · cases hrun.symm.trans hplan
  · obtain ⟨hp, rfl⟩ := Prod.mk.inj (hrun.symm.trans hplan)
    obtain rfl := Except.ok.inj hp
    cases hmirrors with
    | @some _ q hmirrors =>
      refine ⟨q, hp', hmirrors.layout, ?_⟩
      rw [Plan.collect, hmirrors.feed .refl] at hcollect
      unfold Plan.items
      cases hd : q.delivery with
      | error e => rw [hd] at hcollect; cases hcollect
      | ok feed => rw [hd] at hcollect; exact Feed.items_of_toExcept hcollect

end GraphShapes
