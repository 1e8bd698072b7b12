import GraphShapes.Proofs.Plan.Built
import GraphShapes.Proofs.RowFeed.Sorted

/-!
# Where plans keep the order

A plan is to deliver its rows in ascending order, and every operator relies on that of its inputs.
Below a sort the order does not matter; `Plan.Streams` are the plans whose order does.

Two operators do not keep the order (`Plan.not_always_in_order`). Values along a path come target by
target, so they start again from the first one when a target is repeated; and the equality join by
target appends columns to lines of which one may be the beginning of the next. `Plan.Harmless` says
that the inputs of such an operator do not make it do so. The streams of a plan are in order exactly
if all of them are harmless (`Plan.streams_in_order_iff`): every other operator keeps the order,
whatever it is applied to (`Built.steps`).
-/

namespace GraphShapes

open Row (Sorted)

/-! ## Values -/

section Values

variable {rows : List Row} {a b : Row} (G : Store) (path : Path)

/-- The values of a row come before those of a later row, unless both have one target that has
several values. -/
theorem valueRows_le_iff (hab : (a.compare b).isLE) :
    (∀ x ∈ valueRows G (some path) a, ∀ y ∈ valueRows G (some path) b, (x.compare y).isLE) ↔
      (a.target = b.target → (G.linked path a.target).length ≤ 1) := by
  constructor
  · intro hrows htarget
    have hasc := G.pairwise_linked path a.target
    have hmem : ∀ {r : Row} {st : Statement}, st ∈ G.linked path r.target →
        { Row.ofStatement r.target (path.valueOf st) st with scope := r.scope } ∈
          valueRows G (some path) r := List.mem_map_of_mem
    match hlinked : G.linked path a.target with
    | [] => exact Nat.zero_le 1
    | [_] => exact Nat.le_refl 1
    | st :: st' :: rest =>
      -- the first value of the later row would have to come after the second of the earlier one
      rw [hlinked] at hasc
      have hlt : (path.valueOf st).compare (path.valueOf st') = .lt :=
        (List.pairwise_cons.1 hasc).1 st' (List.mem_cons_self ..)
      have hle := hrows _ (hmem (hlinked ▸ List.mem_cons_of_mem _ (List.mem_cons_self ..))) _
        (hmem (htarget ▸ hlinked ▸ List.mem_cons_self ..))
      have hle : (Row.compareLines (a.target :: path.valueOf st' :: _)
        (b.target :: path.valueOf st :: _)).isLE := hle
      rw [htarget, Row.compareLines_cons, Row.compareLines_cons, Term.compare_self,
        Std.OrientedCmp.gt_of_lt hlt] at hle
      cases hle
  · intro honce x hx y hy
    have hle : (a.target.compare b.target).isLE := by
      rw [RowFeed.compare_target]
      exact Row.isLE_take 1 hab
    by_cases htarget : a.target = b.target
    · have hlen := honce htarget
      obtain ⟨st, hst, rfl⟩ := List.mem_map.1 hx
      obtain ⟨st', hst', rfl⟩ := List.mem_map.1 hy
      rw [← htarget] at hst'
      have hone : (G.linked path a.target).length = 1 :=
        Nat.le_antisymm hlen (List.length_pos_of_mem hst)
      obtain ⟨only, honly⟩ := List.length_eq_one_iff.1 hone
      rw [honly] at hst hst'
      obtain rfl := List.mem_singleton.1 hst
      obtain rfl := List.mem_singleton.1 hst'
      show (Row.compareLines (a.target :: _) (b.target :: _)).isLE
      rw [htarget]
      exact (Row.compareLines_self _).symm ▸ rfl
    · have hlt : a.target.compare b.target = .lt :=
        Ordered.eq_lt_of_isLE hle fun heq => htarget (Term.eq_of_compare_eq heq)
      rw [Row.compare_of_target_lt]
      · rfl
      · rw [target_of_mem_valueRows hx, target_of_mem_valueRows hy]
        exact hlt

/-- Values along a path are in order exactly if a target that is repeated has at most one. -/
theorem sorted_flatMap_valueRows_iff (h : Sorted rows) :
    Sorted (rows.flatMap (valueRows G (some path))) ↔
      rows.Pairwise fun a b => a.target = b.target → (G.linked path a.target).length ≤ 1 := by
  have hflat : Sorted (rows.flatMap (valueRows G (some path))) ↔ rows.Pairwise fun a b =>
      ∀ x ∈ valueRows G (some path) a, ∀ y ∈ valueRows G (some path) b, (x.compare y).isLE :=
    List.pairwise_flatMap.trans (and_iff_right fun row _ => (strict_valueRows G _ row).sorted)
  rw [hflat]
  constructor
  · exact List.Pairwise.imp₂ (fun a b hab hrows => (valueRows_le_iff G path hab).1 hrows) h
  · exact List.Pairwise.imp₂ (fun a b hab honce => (valueRows_le_iff G path hab).2 honce) h

/-- Targets as their own values are in order. -/
theorem sorted_flatMap_self (h : Sorted rows) : Sorted (rows.flatMap (valueRows G none)) := by
  have hmap : rows.flatMap (valueRows G none) =
      rows.map fun r => (r.trim 1).withValue r.target := List.map_eq_flatMap.symm
  rw [hmap]
  refine List.Pairwise.map _ (fun a b hab => ?_) h
  have hle : (a.target.compare b.target).isLE := by
    rw [RowFeed.compare_target]
    exact Row.isLE_take 1 hab
  show (Row.compareLines [a.target, a.target] [b.target, b.target]).isLE
  rw [Row.compareLines_cons, Row.compareLines_singleton]
  exact isLE_then.2 ((Ordering.isLE_iff_eq_lt_or_eq_eq.1 hle).imp_right fun heq => ⟨heq, hle⟩)

end Values

namespace Plan

variable {ss : Splitters} {p : Plan} {rows : List Row}

/-! ## Streams -/

/-- Reading the plan to the end brings rows in ascending order. -/
def InOrder (ss : Splitters) (p : Plan) : Prop := ∃ rows, p.Brings ss rows ∧ Sorted rows

/-- The inputs whose rows are taken as they come, the supply of a splitter among them. -/
def streamed (ss : Splitters) : Plan → List Plan
  | empty _ => []
  | values .. => []
  | probe _ => []
  | targetScan _ => []
  | reader s _ => ss[s]?.toList
  | valuesOf targets _ _ => [targets]
  | countValues targets vs _ _ => [targets, vs]
  | filter input _ _ => [input]
  | trim input _ => [input]
  | sort _ => []
  | unique input _ => [input]
  | union inputs => inputs
  | tag input _ => [input]
  | relabel input _ => [input]
  | equalsJoin left right _ => [left, right]
  | innerJoin left right => [left, right]
  | antiJoin left right => [left, right]

/-- The second plan is the first, or its rows are taken as they come on the way to the first. -/
inductive Streams (ss : Splitters) : Plan → Plan → Prop where
  | here (p : Plan) : Streams ss p p
  | through {p i q : Plan} (hi : i ∈ p.streamed ss) (h : Streams ss i q) : Streams ss p q

theorem forall_streams {P : Plan → Prop} : (∀ q, p.Streams ss q → P q) ↔
    P p ∧ ∀ i ∈ p.streamed ss, ∀ q, i.Streams ss q → P q := by
  constructor
  · exact fun h => ⟨h p (.here p), fun i hi q hq => h q (.through hi hq)⟩
  · intro h q hq
    cases hq with
    | here => exact h.1
    | through hi hq => exact h.2 _ hi q hq

/-- What holds of a plan as soon as it holds of all that is streamed into it holds of every plan
that is put together. -/
@[elab_as_elim]
theorem Built.along {motive : Plan → Prop} (h : p.Built ss)
    (step : ∀ p, p.Built ss → (∀ i ∈ p.streamed ss, motive i) → motive p) : motive p := by
  have hone : ∀ {i : Plan}, motive i → ∀ j ∈ [i], motive j := List.forall_mem_singleton.2
  have htwo : ∀ {i j : Plan}, motive i → motive j → ∀ k ∈ [i, j], motive k := fun hi hj =>
    List.forall_mem_cons.2 ⟨hi, List.forall_mem_singleton.2 hj⟩
  induction h with
  | empty layout => exact step _ (.empty layout) nofun
  | ofRows rows layout => exact step _ (.ofRows rows layout) nofun
  | targetScan hscan => exact step _ (.targetScan hscan) nofun
  | @reader s supply hs h ih =>
    refine step _ (.reader hs h) ?_
    show ∀ i ∈ ss[s]?.toList, motive i
    -- a reader streams the supply of its splitter
    rw [hs]
    exact hone ih
  | valuesOf h hsource path ih => exact step _ (.valuesOf h hsource path) (hone ih)
  | countValues ht hv label test iht ihv =>
    exact step _ (.countValues ht hv label test) (htwo iht ihv)
  | filter h label keep ih => exact step _ (.filter h label keep) (hone ih)
  | trimTo h width ih => exact step _ (.trimTo h width) (hone ih)
  | sort h ih => exact step _ (.sort h) nofun
  | unique h ih => exact step _ (.unique h) (hone ih)
  | uniqueOn h width ih => exact step _ (.uniqueOn h width) (hone ih)
  | union h hp ih =>
    refine step _ (.union h hp) ?_
    rw [eq_of_union? hp]
    exact ih
  | tag h shape ih => exact step _ (.tag h shape) (hone ih)
  | relabel h layout ih => exact step _ (.relabel h layout) (hone ih)
  | equalsJoin hl hr allColumns hp ihl ihr =>
    refine step _ (.equalsJoin hl hr allColumns hp) ?_
    rw [eq_of_equalsJoin? hp]
    exact htwo ihl ihr
  | innerJoin hl hr hp ihl ihr =>
    refine step _ (.innerJoin hl hr hp) ?_
    rw [eq_of_innerJoin? hp]
    exact htwo ihl ihr
  | antiJoin hl hr ihl ihr => exact step _ (.antiJoin hl hr) (htwo ihl ihr)

/-- What the inputs bring does not put the operator out of order. -/
def Harmless (ss : Splitters) : Plan → Prop
  | valuesOf targets source (some path) => ∀ rows, targets.Brings ss rows →
      rows.Pairwise fun a b => a.target = b.target →
        (source.store.linked path a.target).length ≤ 1
  | equalsJoin left right false => ∀ lefts rights, left.Brings ss lefts → right.Brings ss rights →
      lefts.Pairwise (RowFeed.StaysBefore rights)
  | _ => True

/-! ## One operator -/

section Layered

variable (hlayered : ss.Layered)
include hlayered

theorem Built.inOrder_iff (h : p.Built ss) (hy : p.Yields ss rows) :
    p.InOrder ss ↔ Sorted rows := by
  constructor
  · intro hin
    obtain ⟨rows', hbrings, hsorted⟩ := hin
    rwa [(h.brings_iff hlayered hy).1 hbrings]
  · exact fun hsorted => ⟨rows, (h.brings_iff hlayered hy).2 rfl, hsorted⟩

omit hlayered in
/-- The plan brings rows, and if what is streamed into it is in order, then they are in order
exactly if the plan is harmless. -/
def Steps (ss : Splitters) (p : Plan) : Prop :=
  ∃ rows, p.Yields ss rows ∧
    ((∀ i ∈ p.streamed ss, i.InOrder ss) → (Sorted rows ↔ p.Harmless ss))

variable {left right q : Plan}

/-- An operator over one input that keeps the order. -/
theorem Built.steps_over {f : RowFeed → RowFeed} {g : List Row → List Row} (h : p.Built ss)
    (ih : p.Steps ss) (hp : p ∈ q.streamed ss) (hq : q.Harmless ss)
    (hmeaning : q.feedIn ss = do return f (← p.feedIn ss))
    (hf : ∀ rows, f (Feed.ofList rows) = Feed.ofList (g rows))
    (hsorted : ∀ {rows}, Sorted rows → Sorted (g rows)) : q.Steps ss := by
  obtain ⟨rows, hy, -⟩ := ih
  refine ⟨g rows, ?_, fun hin => iff_of_true ?_ hq⟩
  · rw [Yields, hmeaning, hy, ← hf]
    rfl
  · exact hsorted ((h.inOrder_iff hlayered hy).1 (hin p hp))

/-- A join that keeps the order of its left input. -/
theorem Built.steps_join {join : RowFeed → RowFeed → RowFeed} (hl : left.Built ss)
    (ihl : left.Steps ss) (ihr : right.Steps ss) (hp : left ∈ q.streamed ss) (hq : q.Harmless ss)
    (hmeaning : q.feedIn ss = do let l ← left.feedIn ss; return join l (← right.feedIn ss))
    (hends : ∀ {l r : RowFeed}, l.breaks = false → r.breaks = false → (join l r).breaks = false)
    (hsorted : ∀ {l : RowFeed}, Sorted l.items → ∀ r, Sorted (join l r).items) : q.Steps ss := by
  obtain ⟨lefts, hyl, -⟩ := ihl
  obtain ⟨rights, hyr, -⟩ := ihr
  obtain ⟨rows, hrows⟩ :=
    Feed.exists_ofList (hends (Feed.breaks_ofList lefts) (Feed.breaks_ofList rights))
  refine ⟨rows, ?_, fun hin => iff_of_true ?_ hq⟩
  · rw [Yields, hmeaning, hyl, hyr, ← hrows]
    rfl
  · have hs : Sorted (Feed.ofList lefts : RowFeed).items := by
      rw [Feed.items_ofList]
      exact (hl.inOrder_iff hlayered hyl).1 (hin left hp)
    rw [← Feed.items_ofList rows, ← hrows]
    exact hsorted hs _

theorem Built.steps_valuesOf {source : Source} (h : p.Built ss) (ih : p.Steps ss)
    (hsource : source.Reliable) (path : Option Path) : (Plan.valuesOf p source path).Steps ss := by
  obtain ⟨rows, hy, -⟩ := ih
  refine ⟨rows.flatMap (valueRows source.store path), ?_, fun hin => ?_⟩
  · rw [Yields, feedIn, meaning, hy.meaning_eq]
    exact congrArg Except.ok (Feed.expand_ofList fun row _ => rowsOf_eq_ok hsource path row)
  · have hsorted := (h.inOrder_iff hlayered hy).1 (hin p (List.mem_singleton_self p))
    cases path with
    | none => exact iff_of_true (sorted_flatMap_self source.store hsorted) trivial
    | some path =>
      refine (sorted_flatMap_valueRows_iff source.store path hsorted).trans ?_
      constructor
      · intro honce rows' hrows'
        exact (h.brings_iff hlayered hy).1 hrows' ▸ honce
      · exact fun hharmless => hharmless rows ((h.brings_iff hlayered hy).2 rfl)

theorem Built.steps_equalsJoin (hl : left.Built ss) (hr : right.Built ss) (ihl : left.Steps ss)
    (ihr : right.Steps ss) (allColumns : Bool) :
    (Plan.equalsJoin left right allColumns).Steps ss := by
  obtain ⟨lefts, hyl, -⟩ := ihl
  obtain ⟨rights, hyr, -⟩ := ihr
  -- that the join ends does not depend on the order of its inputs
  have hends : (RowFeed.equalsJoin (joinWidth allColumns) (Feed.ofList lefts)
      (Feed.ofList rights)).breaks = false :=
    RowFeed.breaks_equalsJoin (Feed.breaks_ofList lefts) (Feed.breaks_ofList rights)
  obtain ⟨rows, hrows⟩ := Feed.exists_ofList hends
  refine ⟨rows, ?_, fun hin => ?_⟩
  · rw [Yields, feedIn, meaning, hyl.meaning_eq, hyr.meaning_eq, ← hrows]
    rfl
  · obtain ⟨hinl, hinr⟩ := List.forall_mem_cons.1 hin
    have hsl := (hl.inOrder_iff hlayered hyl).1 hinl
    have hsr := (hr.inOrder_iff hlayered hyr).1 (List.forall_mem_singleton.1 hinr)
    rw [RowFeed.equalsJoin_ofList (hsl.of_sorted _) (hsr.of_sorted _)] at hrows
    rw [← Feed.items_ofList rows, ← hrows, Feed.items_ofList]
    cases allColumns with
    | true => exact iff_of_true (RowFeed.sorted_equalPairs hsl) trivial
    | false =>
      refine (RowFeed.sorted_equalPairs_iff hsl hsr).trans ?_
      constructor
      · intro hbefore lefts' rights' hlefts hrights
        rw [← (hl.brings_iff hlayered hyl).1 hlefts, ← (hr.brings_iff hlayered hyr).1 hrights]
        exact hbefore
      · exact fun hharmless => hharmless lefts rights ((hl.brings_iff hlayered hyl).2 rfl)
          ((hr.brings_iff hlayered hyr).2 rfl)

/-- Every plan that is put together brings rows, and its last operator keeps the order if it is
harmless, and only then. -/
theorem Built.steps (h : p.Built ss) : p.Steps ss := by
  induction h with
  | empty layout => exact ⟨[], rfl, fun _ => iff_of_true .nil trivial⟩
  | ofRows rows layout => exact ⟨_, rfl, fun _ => iff_of_true (Row.sorted_sort rows) trivial⟩
  | targetScan hscan =>
    obtain ⟨terms, hasc, hrows⟩ := hscan.rows_eq
    refine ⟨_, congrArg Except.ok hrows, fun _ => iff_of_true ?_ trivial⟩
    refine List.Pairwise.map _ (fun a b hab => ?_) hasc
    show (Row.compareLines [a] [b]).isLE
    rw [Row.compareLines_singleton, hab]
    rfl
  | @reader s supply hs h ih =>
    obtain ⟨rows, hy, -⟩ := ih
    refine ⟨rows, hy.reader hlayered hs _, fun hin => iff_of_true ?_ trivial⟩
    have hin : ∀ i ∈ ss[s]?.toList, i.InOrder ss := hin
    rw [hs] at hin
    exact (h.inOrder_iff hlayered hy).1 (hin supply (List.mem_singleton_self supply))
  | valuesOf h hsource path ih => exact h.steps_valuesOf hlayered ih hsource path
  | countValues ht hv label test iht ihv =>
    exact ht.steps_join hlayered iht ihv (List.mem_cons_self ..) trivial
      (by rw [feedIn, meaning]; rfl) (RowFeed.breaks_countValues test)
      fun hs values => RowFeed.sorted_countValues hs test values
  | filter h label keep ih =>
    exact h.steps_over hlayered ih (List.mem_singleton_self _) trivial
      (by rw [feedIn, meaning]; rfl) (Feed.filter_ofList keep) fun hs => hs.filter _
  | trimTo h width ih =>
    exact h.steps_over hlayered ih (List.mem_singleton_self _) trivial
      (by rw [feedIn, Plan.trimTo, meaning]; rfl) (fun _ => RowFeed.trim_ofList _)
      fun hs => Row.sorted_trim hs _
  | sort h ih =>
    -- a sort puts the rows in order, in whatever order they come
    obtain ⟨rows, hy, -⟩ := ih
    refine ⟨_, ?_, fun _ => iff_of_true (Row.sorted_sort rows) trivial⟩
    rw [Yields, feedIn, meaning, hy.meaning_eq, ← RowFeed.sorted_ofList]
  | unique h ih =>
    exact h.steps_over hlayered ih (List.mem_singleton_self _) trivial
      (by rw [feedIn, meaning]; rfl) (fun _ => RowFeed.unique_ofList)
      fun hs => hs.sublist (RowFeed.eraseDupsBy_sublist _)
  | uniqueOn h width ih =>
    exact h.steps_over hlayered ih (List.mem_singleton_self _) trivial
      (by rw [feedIn, Plan.uniqueOn, meaning]; rfl) (fun _ => RowFeed.unique_ofList)
      fun hs => hs.sublist (RowFeed.eraseDupsBy_sublist _)
  | union h hp ih =>
    obtain rfl := eq_of_union? hp
    obtain ⟨lists, hlists, hyields⟩ := exists_meanings fun i hi => (ih i hi).imp fun _ => And.left
    refine ⟨RowFeed.mergeAllLists lists, ?_, fun hin => iff_of_true ?_ trivial⟩
    · rw [Yields, feedIn, meaning, hlists, ← RowFeed.mergeAll_ofList]
      rfl
    · refine RowFeed.sorted_mergeAllLists fun l hl => ?_
      obtain ⟨i, hi, hy⟩ := hyields l hl
      exact ((h i hi).inOrder_iff hlayered hy).1 (hin i hi)
  | tag h shape ih =>
    exact h.steps_over hlayered ih (List.mem_singleton_self _) trivial
      (by rw [feedIn, meaning]; rfl) (fun _ => RowFeed.tag_ofList shape)
      (Row.sorted_map (Row.line_tag shape))
  | relabel h layout ih =>
    obtain ⟨rows, hy, -⟩ := ih
    refine ⟨rows, ?_, fun hin => iff_of_true ?_ trivial⟩
    · rw [Yields, feedIn, meaning_relabel]
      exact hy
    · exact (h.inOrder_iff hlayered hy).1 (hin _ (List.mem_singleton_self _))
  | equalsJoin hl hr allColumns hp ihl ihr =>
    rw [eq_of_equalsJoin? hp]
    exact hl.steps_equalsJoin hlayered hr ihl ihr allColumns
  | innerJoin hl hr hp ihl ihr =>
    rw [eq_of_innerJoin? hp]
    exact hl.steps_join hlayered ihl ihr (List.mem_cons_self ..) trivial
      (by rw [feedIn, meaning]; rfl) RowFeed.breaks_innerJoin RowFeed.sorted_innerJoin
  | antiJoin hl hr ihl ihr =>
    exact hl.steps_join hlayered ihl ihr (List.mem_cons_self ..) trivial
      (by rw [feedIn, meaning]; rfl) RowFeed.breaks_antiJoin RowFeed.sorted_antiJoin

/-! ## All of them -/

/-- The streams of a plan are in order exactly if they are harmless. -/
theorem streams_in_order_iff (h : p.Built ss) :
    (∀ q, p.Streams ss q → q.InOrder ss) ↔ ∀ q, p.Streams ss q → q.Harmless ss := by
  refine Built.along h fun p h ih => ?_
  obtain ⟨rows, hy, hstep⟩ := h.steps hlayered
  have hinputs : (∀ i ∈ p.streamed ss, ∀ q, i.Streams ss q → q.InOrder ss) ↔
      ∀ i ∈ p.streamed ss, ∀ q, i.Streams ss q → q.Harmless ss := forall₂_congr ih
  rw [forall_streams, forall_streams, hinputs]
  refine and_congr_left fun hharmless => ?_
  have hin : ∀ i ∈ p.streamed ss, i.InOrder ss := fun i hi => hinputs.2 hharmless i hi i (.here i)
  exact (h.inOrder_iff hlayered hy).trans (hstep hin)

end Layered

/-- A target with two values. -/
def twoValues : Store :=
  .ofList [⟨.iri "a", .iri "p", .int 1⟩, ⟨.iri "a", .iri "p", .int 2⟩]

/-- The values of targets along a path. -/
def valuesAlong (targets : Plan) : Plan :=
  .valuesOf targets (.ofStore twoValues) (some (.predicate (.iri "p")))

/-- The targets are given out of order to a splitter. None of them is repeated, so their values are
in order. -/
theorem streams_in_order_split :
    let supply : Plan := ofRows [{ target := .iri "b" }, { target := .iri "a" }] .aggregated
    let p := valuesAlong (.reader 0 .aggregated)
    Splitters.Layered #[supply] ∧ p.Built #[supply] ∧
      ∀ q, p.Streams #[supply] q → q.InOrder #[supply] := by
  intro supply p
  have hlayered : Splitters.Layered #[supply] := by
    intro s plan hs t ht
    match s, hs with
    | 0, hs =>
      obtain rfl := Option.some.inj hs
      cases ht
    | s + 1, hs => cases hs
  have hsupply : supply.Built #[supply] := .ofRows _ _
  have hreader : (Plan.reader 0 .aggregated).Built #[supply] := .reader rfl hsupply
  have hp : p.Built #[supply] := .valuesOf hreader (Source.reliable_ofStore _) _
  have hdistinct : List.Pairwise (fun a b : Row => a.target ≠ b.target)
      (Ordered.sort Row.compare [{ target := .iri "b" }, { target := .iri "a" }]) :=
    ((Ordered.perm_sort _).pairwise_iff Ne.symm).2 (by decide)
  have hyields := Yields.reader hlayered (s := 0) rfl (rfl : supply.Yields #[supply] _) .aggregated
  refine ⟨hlayered, hp, (streams_in_order_iff hlayered hp).2 (forall_streams.2 ⟨?_, ?_⟩)⟩
  · intro rows hrows
    rw [← (hreader.brings_iff hlayered hyields).1 hrows]
    exact hdistinct.imp fun hne heq => absurd heq hne
  · refine List.forall_mem_singleton.2 (forall_streams.2 ⟨trivial, ?_⟩)
    exact List.forall_mem_singleton.2 (forall_streams.2 ⟨trivial, nofun⟩)

/-- The values of a target that is given twice come twice, one after the other. -/
theorem not_always_in_order :
    let p := valuesAlong (ofRows [{ target := .iri "a" }, { target := .iri "a" }] .aggregated)
    let line (n : Int64) : List Term :=
      [.iri "a", .int n, Statement.quoted ⟨.iri "a", .iri "p", .int n⟩]
    p.Built #[] ∧ ∃ rows, p.Brings #[] rows ∧
      rows.map Row.line = [line 1, line 2, line 1, line 2] ∧ ¬Sorted rows := by
  intro p line
  refine ⟨.valuesOf (.ofRows _ _) (Source.reliable_ofStore _) _, ?_⟩
  have hp : p = valuesAlong
      (.values [{ target := .iri "a" }, { target := .iri "a" }] .aggregated) := by
    show valuesAlong (.values (Ordered.sort Row.compare _) _) = _
    rw [Ordered.sort, List.mergeSort_of_pairwise (by decide)]
  have hlines : ((Pool.ofSplitters #[]).collect p).1.toOption.map (List.map Row.line) =
      some [line 1, line 2, line 1, line 2] := by
    rw [hp]
    decide +kernel
  cases hrows : ((Pool.ofSplitters #[]).collect p).1 with
  | error e =>
    rw [hrows] at hlines
    cases hlines
  | ok rows =>
    rw [hrows] at hlines
    have hlines : rows.map Row.line = [line 1, line 2, line 1, line 2] := Option.some.inj hlines
    refine ⟨rows, hrows, hlines, fun hsorted => ?_⟩
    rw [Row.sorted_iff, hlines] at hsorted
    have hagain : (Row.compareLines (line 2) (line 1)).isLE :=
      (List.pairwise_cons.1 (List.pairwise_cons.1 hsorted).2).1 _ (List.mem_cons_self ..)
    exact absurd hagain (by decide +kernel)

end Plan

end GraphShapes
