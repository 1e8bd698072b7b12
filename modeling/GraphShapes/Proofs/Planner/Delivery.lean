import GraphShapes.Proofs.Meaning.Table
import GraphShapes.Proofs.Planner.Mirror
import GraphShapes.Proofs.RowFeed.Join
import GraphShapes.Proofs.RowFeed.Merge

/-!
# What operators make of lines

`Plan.Lists p rows` says that a plan without readers delivers exactly these rows. The order of the
rows is the business of the operators, so it is proved here once and hidden: `Plan.Ascends` says
that a plan delivers the lines of a set in ascending order, perhaps repeatedly, and
`Plan.Delivers` that it delivers each of them once. What operators make of lines is then set
algebra: a union is the union (`ascends_union`), an equality join the intersection
(`Delivers.equalsJoin`), and the inner and anti joins the intersection and difference of targets.

`Plan.Shows p table` adds that the plan declares the table's layout.
-/

namespace GraphShapes

/-- The lines of rows. -/
def Row.lines (rows : List Row) : Finset (List Term) := (rows.map Row.line).toFinset

/-- The lines that consist of one target each. -/
def targetLines (T : Finset Term) : Finset (List Term) := T.image fun t => [t]

theorem mem_targetLines {T : Finset Term} {l : List Term} :
    l ∈ targetLines T ↔ ∃ t ∈ T, [t] = l := Finset.mem_image

namespace Row

variable {rows : List Row}

theorem mem_lines {l : List Term} : l ∈ lines rows ↔ ∃ r ∈ rows, r.line = l := by
  rw [lines, List.mem_toFinset, List.mem_map]

/-- A shape on the trace leaves the columns alone. -/
theorem line_tag (id : ShapeId) (r : Row) : (r.tag id).line = r.line := rfl

/-- Rows with the same lines, in whatever order and however often. -/
theorem lines_of_eq_iff {rows' : List Row}
    (h : ∀ l, (∃ r ∈ rows, r.line = l) ↔ ∃ r ∈ rows', r.line = l) : lines rows = lines rows' :=
  Finset.ext fun l => by rw [mem_lines, mem_lines, h]

/-- What does not change columns does not change the lines. -/
theorem lines_map {f : Row → Row} (h : ∀ r, (f r).line = r.line) :
    lines (rows.map f) = lines rows := by
  rw [lines, lines, List.map_map]
  exact congrArg List.toFinset (List.map_congr_left fun r _ => h r)

/-- What does not change columns keeps rows in strictly ascending order. -/
theorem strict_map {f : Row → Row} (h : ∀ r, (f r).line = r.line) (hs : Strict rows) :
    Strict (rows.map f) := by
  refine List.Pairwise.map f (fun a b hab => ?_) hs
  show compareLines (f a).line (f b).line = .lt
  rw [h, h]
  exact hab

/-- The lines of rows in strictly ascending order ascend strictly. -/
theorem Strict.ascending (h : Strict rows) : Ordered.Ascending compareLines (rows.map line) :=
  List.Pairwise.map _ (fun _ _ hab => hab) h

/-- There is only one order in which distinct lines ascend. -/
theorem Strict.map_line_eq {rows' : List Row} (h : Strict rows) (h' : Strict rows')
    (hlines : lines rows = lines rows') : rows.map line = rows'.map line := by
  refine h.ascending.eq_of_mem_iff h'.ascending fun l => ?_
  rw [List.mem_map, List.mem_map, ← mem_lines, ← mem_lines, hlines]

/-- The row as its columns tell it. -/
def plain (r : Row) : Row := { r with scope := .base, trace := [] }

/-- Rows with the same lines are the same rows up to scopes and traces. -/
theorem Strict.map_plain_eq {rows' : List Row} (h : Strict rows) (h' : Strict rows')
    (hlines : lines rows = lines rows') : rows.map plain = rows'.map plain := by
  have hmap : ∀ rows : List Row, rows.map plain =
      (rows.map line).map fun l => ⟨l.headD .least, l.tail, .base, []⟩ := fun rows => by
    rw [List.map_map]
    rfl
  rw [hmap, hmap, h.map_line_eq h' hlines]

/-- Cut to the target, rows have the targets of their lines. -/
theorem lines_trim_one : lines (rows.map (trim 1)) = (lines rows).image (List.take 1) := by
  ext l
  simp only [mem_lines, Finset.mem_image, List.mem_map, exists_exists_and_eq_and]
  exact Iff.rfl

/-- Rows whose lines are single targets consist of their target only. -/
theorem line_of_mem {T : Finset Term} (h : lines rows = targetLines T) {r : Row} (hr : r ∈ rows) :
    r.line = [r.target] ∧ r.target ∈ T := by
  have hl : r.line ∈ targetLines T := h ▸ mem_lines.2 ⟨r, hr, rfl⟩
  obtain ⟨t, ht, htl⟩ := mem_targetLines.1 hl
  obtain rfl : t = r.target := (List.cons.inj htl).1
  exact ⟨htl.symm, ht⟩

/-- Every target of the set has a row. -/
theorem exists_of_mem {T : Finset Term} (h : lines rows = targetLines T) {t : Term} (ht : t ∈ T) :
    ∃ r ∈ rows, r.target = t := by
  obtain ⟨r, hr, hl⟩ := mem_lines.1 (h ▸ mem_targetLines.2 ⟨t, ht, rfl⟩ : [t] ∈ lines rows)
  exact ⟨r, hr, (List.cons.inj hl).1⟩

/-- The targets of the rows are the set. -/
theorem toFinset_map_target {T : Finset Term} (h : lines rows = targetLines T) :
    (rows.map target).toFinset = T := by
  ext t
  rw [List.mem_toFinset, List.mem_map]
  constructor
  · intro hex
    obtain ⟨r, hr, rfl⟩ := hex
    exact (line_of_mem h hr).2
  · exact fun ht => exists_of_mem h ht

/-- The same for one target. -/
theorem mem_map_target {T : Finset Term} (h : lines rows = targetLines T) {t : Term} :
    t ∈ rows.map target ↔ t ∈ T := by
  rw [← toFinset_map_target h, List.mem_toFinset]

end Row

namespace Plan

/-- The plan delivers the rows, in this order. -/
def Lists (p : Plan) (rows : List Row) : Prop := p.delivery = .ok (Feed.ofList rows)

/-- The plan delivers the lines in ascending order. -/
def Ascends (p : Plan) (lines : Finset (List Term)) : Prop :=
  ∃ rows, p.Lists rows ∧ Row.Sorted rows ∧ Row.lines rows = lines

/-- The plan delivers every line once, in ascending order. -/
def Delivers (p : Plan) (lines : Finset (List Term)) : Prop :=
  ∃ rows, p.Lists rows ∧ Row.Strict rows ∧ Row.lines rows = lines

/-- The plan delivers the lines of the table under its layout. -/
structure Shows (p : Plan) (table : Table) : Prop where
  layout : p.layout = table.layout
  delivers : p.Delivers table.lines

variable {p q : Plan} {rows rows' : List Row} {L L' : Finset (List Term)}

theorem Lists.meaning_eq (h : p.Lists rows) :
    p.meaning (fun _ => .ok .done) = .ok (Feed.ofList rows) := h

/-- Trimming cuts every row. -/
theorem Lists.trim (h : p.Lists rows) (n : Nat) :
    (Plan.trim p n).Lists (rows.map (Row.trim n)) := by
  unfold Lists delivery
  rw [meaning, h.meaning_eq, ← RowFeed.trim_ofList]
  rfl

/-- Sorting puts the rows in ascending order, equal rows staying as they were. -/
theorem Lists.sort (h : p.Lists rows) : (Plan.sort p).Lists (Ordered.sort Row.compare rows) := by
  unfold Lists delivery
  rw [meaning, h.meaning_eq, ← RowFeed.sorted_ofList]

/-- Dropping repetitions keeps the first of equal rows. -/
theorem Lists.unique (h : p.Lists rows) :
    (Plan.unique p none).Lists (rows.eraseDupsBy (RowFeed.sameKey none)) := by
  unfold Lists delivery
  rw [meaning, h.meaning_eq, ← RowFeed.unique_ofList]
  rfl

/-- Tagging puts the shape on every trace. -/
theorem Lists.tag (h : p.Lists rows) (id : ShapeId) :
    (Plan.tag p id).Lists (rows.map (Row.tag id)) := by
  unfold Lists delivery
  rw [meaning, h.meaning_eq, ← RowFeed.tag_ofList]
  rfl

/-- Filtering keeps the rows that pass. -/
theorem Lists.filter (h : p.Lists rows) (label : String) (keep : Row → Bool) :
    (Plan.filter p label keep).Lists (rows.filter keep) := by
  unfold Lists delivery
  rw [meaning, h.meaning_eq, ← Feed.filter_ofList]
  rfl

/-- An equality join of sorted inputs delivers the pairs of equal rows. -/
theorem Lists.equalsJoin (h : p.Lists rows) (h' : q.Lists rows') (hs : Row.Sorted rows)
    (hs' : Row.Sorted rows') :
    (Plan.equalsJoin p q true).Lists (RowFeed.equalPairs none rows rows') := by
  unfold Lists delivery
  rw [meaning, h.meaning_eq, h'.meaning_eq, ← RowFeed.equalsJoin_ofList hs hs']
  rfl

/-- An inner join of sorted inputs delivers the targets that both have. -/
theorem Lists.innerJoin (h : p.Lists rows) (h' : q.Lists rows') (hs : Row.Sorted rows)
    (hs' : Row.Sorted rows') :
    (Plan.innerJoin p q).Lists (RowFeed.commonTargets rows rows') := by
  unfold Lists delivery
  rw [meaning, h.meaning_eq, h'.meaning_eq, ← RowFeed.innerJoin_ofList (hs.of_sorted _)
    (hs'.of_sorted _)]
  rfl

/-- An anti join of sorted inputs delivers the rows on the left whose target is missing on the
right. -/
theorem Lists.antiJoin (h : p.Lists rows) (h' : q.Lists rows') (hs : Row.Sorted rows)
    (hs' : Row.Sorted rows') : (Plan.antiJoin p q).Lists (RowFeed.missing rows rows') := by
  unfold Lists delivery
  rw [meaning, h.meaning_eq, h'.meaning_eq, ← RowFeed.antiJoin_ofList (hs.of_sorted _)
    (hs'.of_sorted _)]
  rfl

/-- A count delivers the targets whose values pass, if every target comes once and the values are in
the order of their targets. -/
theorem Lists.countValues (h : p.Lists rows) (h' : q.Lists rows')
    (ht : rows.Pairwise fun a b => a.target.compare b.target = .lt)
    (hv : Row.SortedOn (some 1) rows') (label : String) (test : List Term → Bool) :
    (Plan.countValues p q label test).Lists
      ((rows.filter fun t => test (RowFeed.valuesFor t.target rows')).map (Row.trim 1)) := by
  unfold Lists delivery
  rw [meaning, h.meaning_eq, h'.meaning_eq, ← RowFeed.countValues_ofList ht hv]
  rfl

/-- Plans that mean lists, one after the other. -/
theorem meanings_ofList {splitter : SplitterId → Except OpError RowFeed} {ps : List Plan}
    {lists : List (List Row)}
    (h : List.Forall₂ (fun p rows => p.meaning splitter = .ok (Feed.ofList rows)) ps lists) :
    meanings splitter ps = .ok (lists.map Feed.ofList) := by
  induction h with
  | nil => rfl
  | cons hp _ ih => rw [meanings, hp, ih]; rfl

/-- A union merges what its inputs deliver. -/
theorem Lists.union {ps : List Plan} {lists : List (List Row)} (h : List.Forall₂ Lists ps lists) :
    (Plan.union ps).Lists (RowFeed.mergeAllLists lists) := by
  unfold Lists delivery
  rw [meaning, meanings_ofList h, ← RowFeed.mergeAll_ofList]
  rfl

/-! ## Lines -/

/-- To deliver every line once is to deliver the lines in order. -/
theorem Delivers.ascends (h : p.Delivers L) : p.Ascends L := by
  obtain ⟨rows, hlists, hstrict, hlines⟩ := h
  exact ⟨rows, hlists, hstrict.sorted, hlines⟩

/-- Cut to the target, lines still come in order, but perhaps repeatedly. -/
theorem Ascends.trimTo_one (h : p.Ascends L) : (p.trimTo 1).Ascends (L.image (List.take 1)) := by
  obtain ⟨rows, hlists, hsorted, rfl⟩ := h
  exact ⟨_, hlists.trim 1, Row.sorted_trim hsorted 1, Row.lines_trim_one⟩

/-- Dropping repetitions delivers every line once. -/
theorem Ascends.unique (h : p.Ascends L) : (Plan.unique p none).Delivers L := by
  obtain ⟨rows, hlists, hsorted, rfl⟩ := h
  refine ⟨_, hlists.unique, RowFeed.strict_eraseDupsBy hsorted, ?_⟩
  ext l
  rw [Row.lines, Row.lines, List.mem_toFinset, List.mem_toFinset, RowFeed.mem_lines_eraseDupsBy]

/-- The distinct targets of a plan are the first columns of its lines. -/
theorem Ascends.distinctTargets (h : p.Ascends L) :
    p.distinctTargets.Delivers (L.image (List.take 1)) := h.trimTo_one.unique

/-- A shape on the traces changes no line. -/
theorem Delivers.tag (h : p.Delivers L) (id : ShapeId) : (Plan.tag p id).Delivers L := by
  obtain ⟨rows, hlists, hstrict, rfl⟩ := h
  exact ⟨_, hlists.tag id, Row.strict_map (Row.line_tag id) hstrict,
    Row.lines_map (Row.line_tag id)⟩

/-- Nor does it change the layout. -/
theorem Shows.tag {table : Table} (h : p.Shows table) (id : ShapeId) :
    (Plan.tag p id).Shows table := ⟨h.layout, h.delivers.tag id⟩

/-- A union has the lines of all inputs. -/
theorem ascends_union {ps : List Plan} {sets : List (Finset (List Term))}
    (h : List.Forall₂ Ascends ps sets) :
    (Plan.union ps).Ascends (sets.foldr (· ∪ ·) ∅) := by
  have hlists : ∃ lists, List.Forall₂ Lists ps lists ∧ (∀ l ∈ lists, Row.Sorted l) ∧
      Row.lines lists.flatten = sets.foldr (· ∪ ·) ∅ := by
    induction h with
    | nil => exact ⟨[], .nil, by simp, rfl⟩
    | cons hp _ ih =>
      obtain ⟨rows, hlist, hsorted, rfl⟩ := hp
      obtain ⟨lists, hall, hsorteds, hlines⟩ := ih
      refine ⟨rows :: lists, .cons hlist hall, List.forall_mem_cons.2 ⟨hsorted, hsorteds⟩, ?_⟩
      rw [List.foldr_cons, ← hlines, List.flatten_cons, Row.lines, List.map_append,
        List.toFinset_append]
      rfl
  obtain ⟨lists, hall, hsorteds, hlines⟩ := hlists
  refine ⟨_, Lists.union hall, RowFeed.sorted_mergeAllLists hsorteds, ?_⟩
  rw [← hlines]
  exact Row.lines_of_eq_iff fun l => by simp only [(RowFeed.perm_mergeAllLists lists).mem_iff]

/-- A left row joined with a right row of the same line keeps its line. -/
theorem line_combine {l r : Row} (h : r ∈ RowFeed.partners none l rows') :
    (RowFeed.combine (l.keyOf none).length l r).line = l.line :=
  RowFeed.line_combine (of_decide_eq_true (List.mem_filter.1 h).2)

/-- Among distinct lines a row has at most one partner. -/
theorem pairwise_partners (h : Row.Strict rows') (l : Row) {R : Row → Row → Prop} :
    (RowFeed.partners none l rows').Pairwise R := by
  -- two partners would have the same line
  refine List.Pairwise.imp_of_mem (fun {a b} ha hb hab => ?_)
    (List.Pairwise.filter (fun r => decide (r.keyOf none = l.keyOf none)) h)
  have ha : a.line = l.line := of_decide_eq_true (List.mem_filter.1 ha).2
  have hb : b.line = l.line := of_decide_eq_true (List.mem_filter.1 hb).2
  have hab : Row.compareLines a.line b.line = .lt := hab
  rw [ha, hb, Row.compareLines_self] at hab
  cases hab

/-- Pairs of equal rows come in strictly ascending order if both inputs do. -/
theorem strict_equalPairs (h : Row.Strict rows) (h' : Row.Strict rows') :
    Row.Strict (RowFeed.equalPairs none rows rows') := by
  refine List.pairwise_flatMap.2 ⟨fun l _ => ?_, ?_⟩
  · exact List.Pairwise.map _ (fun _ _ hab => hab) (pairwise_partners h' l)
  · -- pairs keep the line of the left row
    refine List.Pairwise.imp (fun {a b} hab x hx y hy => ?_) h
    obtain ⟨r, hr, rfl⟩ := List.mem_map.1 hx
    obtain ⟨r', hr', rfl⟩ := List.mem_map.1 hy
    show Row.compareLines _ _ = .lt
    rw [line_combine hr, line_combine hr']
    exact hab

/-- The pairs of equal rows have the lines that both inputs have. -/
theorem lines_equalPairs :
    Row.lines (RowFeed.equalPairs none rows rows') = Row.lines rows ∩ Row.lines rows' := by
  ext l
  rw [Finset.mem_inter, Row.mem_lines, Row.mem_lines, Row.mem_lines]
  constructor
  · intro h
    obtain ⟨x, hx, rfl⟩ := h
    obtain ⟨a, ha, hx⟩ := List.mem_flatMap.1 hx
    obtain ⟨r, hr, rfl⟩ := List.mem_map.1 hx
    have hline : r.line = a.line := of_decide_eq_true (List.mem_filter.1 hr).2
    rw [line_combine hr]
    exact ⟨⟨a, ha, rfl⟩, r, (List.mem_filter.1 hr).1, hline⟩
  · intro h
    obtain ⟨⟨a, ha, rfl⟩, r, hr, hra⟩ := h
    have hr : r ∈ RowFeed.partners none a rows' :=
      List.mem_filter.2 ⟨hr, decide_eq_true hra⟩
    exact ⟨_, List.mem_flatMap.2 ⟨a, ha, List.mem_map_of_mem hr⟩, line_combine hr⟩

/-- The equality join of distinct lines is their intersection. -/
theorem Delivers.equalsJoin (h : p.Delivers L) (h' : q.Delivers L') :
    (Plan.equalsJoin p q true).Delivers (L ∩ L') := by
  obtain ⟨rows, hlists, hstrict, rfl⟩ := h
  obtain ⟨rows', hlists', hstrict', rfl⟩ := h'
  exact ⟨_, hlists.equalsJoin hlists' hstrict.sorted hstrict'.sorted,
    strict_equalPairs hstrict hstrict', lines_equalPairs⟩

/-! ## Targets -/

variable {T T' : Finset Term}

/-- Rows of targets that come in order have ascending targets. -/
theorem pairwise_target (hlines : ∀ r ∈ rows, r.line = [r.target]) (h : Row.Strict rows) :
    rows.Pairwise fun a b => a.target.compare b.target = .lt := by
  refine List.Pairwise.imp_of_mem (fun {a b} ha hb hab => ?_) h
  have hab : Row.compareLines a.line b.line = .lt := hab
  rwa [hlines a ha, hlines b hb, Row.compareLines_singleton] at hab

/-- The other way round: rows of ascending targets come in order. -/
theorem strict_of_pairwise_target (hlines : ∀ r ∈ rows, r.line = [r.target])
    (h : rows.Pairwise fun a b => a.target.compare b.target = .lt) : Row.Strict rows := by
  refine List.Pairwise.imp_of_mem (fun {a b} ha hb hab => ?_) h
  show Row.compareLines a.line b.line = .lt
  rwa [hlines a ha, hlines b hb, Row.compareLines_singleton]

/-- Lines that a plan delivers are about a target, and cut to it they are that target. -/
theorem Delivers.image_take_one (h : p.Delivers L) :
    L.image (List.take 1) = targetLines (L.biUnion fun l => l.head?.toFinset) := by
  obtain ⟨rows, -, -, rfl⟩ := h
  ext l
  simp only [Finset.mem_image, mem_targetLines, Finset.mem_biUnion, Option.mem_toFinset,
    Option.mem_def, Row.mem_lines]
  constructor
  · intro hex
    obtain ⟨_, ⟨r, hr, rfl⟩, rfl⟩ := hex
    exact ⟨r.target, ⟨r.line, ⟨r, hr, rfl⟩, rfl⟩, rfl⟩
  · intro hex
    obtain ⟨t, ⟨_, ⟨r, hr, rfl⟩, ht⟩, rfl⟩ := hex
    obtain rfl := Option.some.inj ht
    exact ⟨r.line, ⟨r, hr, rfl⟩, rfl⟩

/-- The distinct targets of a plan are the targets of its lines. -/
theorem Delivers.distinctTargets (h : p.Delivers L) :
    p.distinctTargets.Delivers (targetLines (L.biUnion fun l => l.head?.toFinset)) := by
  rw [← h.image_take_one]
  exact h.ascends.distinctTargets

/-- The inner join of distinct targets is their intersection. -/
theorem Delivers.innerJoin (h : p.Delivers (targetLines T)) (h' : q.Delivers (targetLines T')) :
    (Plan.innerJoin p q).Delivers (targetLines (T ∩ T')) := by
  obtain ⟨rows, hlists, hstrict, hlines⟩ := h
  obtain ⟨rows', hlists', hstrict', hlines'⟩ := h'
  have hrow : ∀ x ∈ RowFeed.commonTargets rows rows', x.line = [x.target] :=
    fun x => RowFeed.line_of_mem_commonTargets
  have htargets := RowFeed.pairwise_commonTargets (hstrict.sorted.of_sorted _) rows'
  have hmem : ∀ t, t ∈ (RowFeed.commonTargets rows rows').map Row.target ↔ t ∈ T ∩ T' := by
    intro t
    rw [RowFeed.mem_targets_commonTargets, Finset.mem_inter, Row.mem_map_target hlines,
      Row.mem_map_target hlines']
  refine ⟨_, hlists.innerJoin hlists' hstrict.sorted hstrict'.sorted,
    strict_of_pairwise_target hrow htargets, ?_⟩
  ext l
  rw [Row.mem_lines, mem_targetLines]
  simp only [← hmem, List.mem_map, exists_exists_and_eq_and]
  refine exists_congr fun x => and_congr_right fun hx => ?_
  rw [hrow x hx]

/-- The anti join of distinct targets is their difference. -/
theorem Delivers.antiJoin (h : p.Delivers (targetLines T)) (h' : q.Delivers (targetLines T')) :
    (Plan.antiJoin p q).Delivers (targetLines (T \ T')) := by
  obtain ⟨rows, hlists, hstrict, hlines⟩ := h
  obtain ⟨rows', hlists', hstrict', hlines'⟩ := h'
  refine ⟨_, hlists.antiJoin hlists' hstrict.sorted hstrict'.sorted,
    List.Pairwise.filter _ hstrict, ?_⟩
  -- a left row has no partner just where its target is not on the right
  have hmissing : ∀ l : Row, (RowFeed.partners (some 1) l rows').isEmpty = true ↔
      l.target ∉ T' := by
    intro l
    rw [List.isEmpty_iff, List.eq_nil_iff_forall_not_mem]
    constructor
    · intro hnone ht
      obtain ⟨r, hr, hrt⟩ := Row.exists_of_mem hlines' ht
      exact hnone r (RowFeed.mem_partners.2 ⟨hr, hrt⟩)
    · intro ht r hr
      obtain ⟨hr, hrt⟩ := RowFeed.mem_partners.1 hr
      exact ht (hrt ▸ (Row.line_of_mem hlines' hr).2)
  ext l
  rw [Row.mem_lines, mem_targetLines]
  constructor
  · intro hex
    obtain ⟨r, hr, rfl⟩ := hex
    obtain ⟨hr, hm⟩ := List.mem_filter.1 hr
    obtain ⟨hline, ht⟩ := Row.line_of_mem hlines hr
    exact ⟨r.target, Finset.mem_sdiff.2 ⟨ht, (hmissing r).1 hm⟩, hline.symm⟩
  · intro hex
    obtain ⟨t, ht, rfl⟩ := hex
    obtain ⟨ht, ht'⟩ := Finset.mem_sdiff.1 ht
    obtain ⟨r, hr, rfl⟩ := Row.exists_of_mem hlines ht
    exact ⟨r, List.mem_filter.2 ⟨hr, (hmissing r).2 ht'⟩, (Row.line_of_mem hlines hr).1⟩

end Plan

end GraphShapes
