import GraphShapes.Proofs.Cursor.Collect
import GraphShapes.Proofs.Planner.Leaf
import GraphShapes.Proofs.RowFeed.Ends
import GraphShapes.Proofs.RowFeed.Sorted

/-!
# Plans that are put together

`Plan.Built` says of a plan that the constructors of the library put it together, from rows, target
scans and readers of splitters whose supplies are put together likewise, over sources that answer.
A producer outside the library is not among them.

Reading such a plan to the end brings rows, in whatever order, and never a failure: it `Yields` rows
as soon as its inputs do.
-/

namespace GraphShapes

/-- Nothing that the scan looks at fails. -/
structure TargetScan.Reliable (scan : TargetScan) : Prop where
  source : scan.source.Reliable
  delta : ∀ delta path, scan.mode = .affected delta path → delta.Reliable

/-- A scan of what does not fail delivers single targets in ascending order. -/
theorem TargetScan.Reliable.rows_eq {scan : TargetScan} (h : scan.Reliable) :
    ∃ terms : Selection, terms.Ascending ∧
      scan.rows = Feed.ofList (terms.map fun t => { target := t, scope := scan.scope }) := by
  have hselect : ∃ terms, scan.select = .ok terms ∧ terms.Ascending := by
    obtain ⟨source, targets, mode⟩ := scan
    cases mode with
    | all =>
      obtain ⟨terms, hselect, hasc, -⟩ := TargetScan.select_all h.source targets
      exact ⟨terms, hselect, hasc⟩
    | affected delta path =>
      obtain ⟨terms, hselect, hasc, -⟩ :=
        TargetScan.select_affected h.source (h.delta delta path rfl) targets path
      exact ⟨terms, hselect, hasc⟩
  obtain ⟨terms, hselect, hasc⟩ := hselect
  exact ⟨terms, hasc, by rw [TargetScan.rows, hselect]⟩

namespace Plan

variable {ss : Splitters} {p : Plan} {rows : List Row}

/-- The plan is put together by the constructors of the library, over sources that answer. -/
inductive Built (ss : Splitters) : Plan → Prop where
  | empty (layout : Layout) : Built ss (.empty layout)
  | ofRows (rows : List Row) (layout : Layout) : Built ss (ofRows rows layout)
  | targetScan {scan : TargetScan} (hscan : scan.Reliable) : Built ss (.targetScan scan)
  | reader {s : SplitterId} {supply : Plan} (hs : ss[s]? = some supply) (h : Built ss supply) :
    Built ss (.reader s supply.layout)
  | valuesOf {targets : Plan} {source : Source} (h : Built ss targets) (hsource : source.Reliable)
    (path : Option Path) : Built ss (.valuesOf targets source path)
  | countValues {targets values : Plan} (ht : Built ss targets) (hv : Built ss values)
    (label : String) (test : List Term → Bool) : Built ss (.countValues targets values label test)
  | filter {input : Plan} (h : Built ss input) (label : String) (keep : Row → Bool) :
    Built ss (.filter input label keep)
  | trimTo {input : Plan} (h : Built ss input) (width : Nat) : Built ss (input.trimTo width)
  | sort {input : Plan} (h : Built ss input) : Built ss (.sort input)
  | unique {input : Plan} (h : Built ss input) : Built ss (.unique input none)
  | uniqueOn {input : Plan} (h : Built ss input) (width : Nat) : Built ss (input.uniqueOn width)
  | union {inputs : List Plan} {p : Plan} (h : ∀ i ∈ inputs, Built ss i)
    (hp : union? inputs = .ok p) : Built ss p
  | tag {input : Plan} (h : Built ss input) (shape : ShapeId) : Built ss (.tag input shape)
  | relabel {input : Plan} (h : Built ss input) (layout : Layout) : Built ss (.relabel input layout)
  | equalsJoin {left right p : Plan} (hl : Built ss left) (hr : Built ss right) (allColumns : Bool)
    (hp : equalsJoin? left right allColumns = .ok p) : Built ss p
  | innerJoin {left right p : Plan} (hl : Built ss left) (hr : Built ss right)
    (hp : innerJoin? left right = .ok p) : Built ss p
  | antiJoin {left right : Plan} (hl : Built ss left) (hr : Built ss right) :
    Built ss (.antiJoin left right)

theorem eq_of_union? {inputs : List Plan} (h : union? inputs = .ok p) : p = union inputs := by
  cases inputs with
  | nil => cases h
  | cons first rest =>
    rw [union?] at h
    split at h
    · cases h
    · exact (Except.ok.inj h).symm

theorem eq_of_equalsJoin? {left right : Plan} {allColumns : Bool}
    (h : equalsJoin? left right allColumns = .ok p) : p = equalsJoin left right allColumns := by
  rw [equalsJoin?] at h
  split at h
  · exact (Except.ok.inj h).symm
  · cases h

theorem eq_of_innerJoin? {left right : Plan} (h : innerJoin? left right = .ok p) :
    p = innerJoin left right := by
  rw [innerJoin?] at h
  split at h
  · cases h
  · exact (Except.ok.inj h).symm

theorem mem_allReadSplitters {s : SplitterId} : ∀ {plans : List Plan},
    s ∈ allReadSplitters plans → ∃ p ∈ plans, s ∈ p.readSplitters
  | p :: rest, h => by
    rcases List.mem_append.1 h with hp | hrest
    · exact ⟨p, List.mem_cons_self .., hp⟩
    · obtain ⟨q, hq, hs⟩ := mem_allReadSplitters hrest
      exact ⟨q, List.mem_cons_of_mem _ hq, hs⟩

/-- The splitters that are read are there. -/
theorem Built.reads (h : p.Built ss) : ∀ s ∈ p.readSplitters, s < ss.size := by
  have hboth : ∀ {ls rs : List SplitterId}, (∀ s ∈ ls, s < ss.size) → (∀ s ∈ rs, s < ss.size) →
      ∀ s ∈ ls ++ rs, s < ss.size := fun hl hr => List.forall_mem_append.2 ⟨hl, hr⟩
  induction h with
  | empty => exact nofun
  | ofRows => exact nofun
  | targetScan => exact nofun
  | reader hs => exact List.forall_mem_singleton.2 (Array.getElem?_eq_some_iff.1 hs).1
  | valuesOf _ _ _ ih => exact ih
  | countValues _ _ _ _ iht ihv => exact hboth iht ihv
  | filter _ _ _ ih => exact ih
  | trimTo _ _ ih => exact ih
  | sort _ ih => exact ih
  | unique _ ih => exact ih
  | uniqueOn _ _ ih => exact ih
  | union _ hp ih =>
    -- what was built is the union itself, which reads what its inputs read
    rw [eq_of_union? hp]
    intro s hs
    obtain ⟨i, hi, hsi⟩ := mem_allReadSplitters hs
    exact ih i hi s hsi
  | tag _ _ ih => exact ih
  | relabel _ _ ih => exact ih
  | equalsJoin _ _ _ hp ihl ihr => exact eq_of_equalsJoin? hp ▸ hboth ihl ihr
  | innerJoin _ _ hp ihl ihr => exact eq_of_innerJoin? hp ▸ hboth ihl ihr
  | antiJoin _ _ ihl ihr => exact hboth ihl ihr

/-! ## What comes -/

/-- Reading the plan to the end brings the rows. -/
def Brings (ss : Splitters) (p : Plan) (rows : List Row) : Prop :=
  ((Pool.ofSplitters ss).collect p).1 = .ok rows

/-- The plan means the rows. -/
def Yields (ss : Splitters) (p : Plan) (rows : List Row) : Prop :=
  p.feedIn ss = .ok (Feed.ofList rows)

theorem Yields.meaning_eq (h : p.Yields ss rows) :
    p.meaning (Splitters.delivered ss.meanings) = .ok (Feed.ofList rows) := h

/-- What a plan means is what reading it brings. -/
theorem brings_iff_yields (hlayered : ss.Layered) (hreads : ∀ s ∈ p.readSplitters, s < ss.size) :
    p.Brings ss rows ↔ p.Yields ss rows := by
  rw [Brings, Pool.collect_ofSplitters hlayered hreads, collect, Yields]
  cases p.feedIn ss with
  | error e =>
    constructor
    · intro h
      cases h
    · intro h
      cases h
  | ok feed =>
    constructor
    · exact fun h => congrArg Except.ok (Feed.eq_ofList_of_toExcept h)
    · intro h
      obtain rfl := Except.ok.inj h
      exact Feed.toExcept_ofList rows

/-- A plan brings only the rows that it yields. -/
theorem Built.brings_iff (hlayered : ss.Layered) (h : p.Built ss) (hy : p.Yields ss rows)
    {rows' : List Row} : p.Brings ss rows' ↔ rows = rows' := by
  rw [brings_iff_yields hlayered h.reads, Yields, hy, Except.ok.injEq]
  exact Feed.ofList_injective.eq_iff

/-- A reader brings what the supply brings. -/
theorem Yields.reader (hlayered : ss.Layered) {s : SplitterId} (hs : ss[s]? = some p)
    (h : p.Yields ss rows) (layout : Layout) : (Plan.reader s layout).Yields ss rows :=
  (hlayered.allotted.entry s p hs).2.trans h

/-- The inputs of a union come to an end if each of them does. -/
theorem exists_meanings : ∀ {plans : List Plan}, (∀ i ∈ plans, ∃ rows, i.Yields ss rows) →
    ∃ lists : List (List Row),
      meanings (Splitters.delivered ss.meanings) plans = .ok (lists.map Feed.ofList) ∧
        ∀ l ∈ lists, ∃ i ∈ plans, i.Yields ss l
  | [], _ => ⟨[], rfl, nofun⟩
  | i :: rest, h => by
    obtain ⟨⟨rows, hy⟩, hrest⟩ := List.forall_mem_cons.1 h
    obtain ⟨lists, hlists, hyields⟩ := exists_meanings hrest
    refine ⟨rows :: lists, by rw [meanings, hy.meaning_eq, hlists]; rfl, ?_⟩
    refine List.forall_mem_cons.2 ⟨⟨i, List.mem_cons_self .., hy⟩, fun l hl => ?_⟩
    obtain ⟨j, hj, hyj⟩ := hyields l hl
    exact ⟨j, List.mem_cons_of_mem _ hj, hyj⟩

end Plan

end GraphShapes
