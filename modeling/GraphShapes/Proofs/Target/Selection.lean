import GraphShapes.Plan.Meaning
import GraphShapes.Proofs.Meaning.Rows
import GraphShapes.Proofs.RowFeed.Lists

/-!
# Selectors over sources that answer

A source is `Reliable` if no scan of it fails; every store is one. Over reliable sources the
questions about selectors have answers, and this file says which: `Target.select` and
`Target.contains` are the terms that the selector picks (`mem_select`, `contains_eq`),
`Target.affected` those that one side of the delta marks (`mem_affected`), and `Target.touchedBy`
whether there are any (`touchedBy_eq`).

A scan for targets then delivers the terms that are selected (`select_all`), or of these the ones
that the delta marks or that a changed statement on the path starts from (`select_affected`).
-/

namespace GraphShapes

/-- Going on after a test that says no. -/
theorem Except.or_eq_ok {ε : Type} {x y : Except ε Bool} {a b : Bool} (hx : x = .ok a)
    (hy : y = .ok b) :
    (do
      if ← x then return true
      y) = Except.ok (a || b) := by
  rw [hx]
  cases a with
  | true => rfl
  | false => exact hy

/-- Filtering by a test that answers for every item. -/
theorem Except.filterM_eq_ok {ε α : Type} {f : α → Except ε Bool} {g : α → Bool} {l : List α}
    (h : ∀ a ∈ l, f a = .ok (g a)) : l.filterM f = .ok (l.filter g) := by
  -- the library's loop keeps what it has found in reverse
  have haux : ∀ {l acc : List α}, (∀ a ∈ l, f a = .ok (g a)) →
      l.filterAuxM f acc = .ok ((l.filter g).reverse ++ acc) := by
    intro l
    induction l with
    | nil => exact fun _ => rfl
    | cons a l ih =>
      intro acc h
      obtain ⟨ha, hl⟩ := List.forall_mem_cons.1 h
      show (f a >>= fun b => l.filterAuxM f (cond b (a :: acc) acc)) = _
      rw [ha]
      show l.filterAuxM f (cond (g a) (a :: acc) acc) = _
      rw [ih hl, List.filter_cons]
      cases g a <;> simp
  show (l.filterAuxM f [] >>= fun as => pure as.reverse) = _
  rw [haux h]
  show Except.ok ((l.filter g).reverse ++ []).reverse = _
  rw [List.append_nil, List.reverse_reverse]

/-! ## Reliable sources -/

/-- No scan of the source fails. -/
def Source.Reliable (s : Source) : Prop := ∀ p, s.fault p = none

namespace Source

variable {s : Source}

/-- A store answers every scan. -/
theorem reliable_ofStore (store : Store) : (ofStore store).Reliable := fun _ => rfl

/-- A scan of a reliable source is the scan of its store. -/
theorem Reliable.scan (h : s.Reliable) (p : Pattern) :
    s.scan p = .ok (Feed.ofList (s.store.scan p)) := by
  unfold Source.scan
  rw [h p]

/-- So are its hits. -/
theorem Reliable.hits (h : s.Reliable) (p : Pattern) : s.hits p = .ok (s.store.scan p) := by
  unfold Source.hits
  rw [h.scan]
  exact Feed.toExcept_ofList _

/-- Whether there is a hit is what the store says. -/
theorem Reliable.hasMatch (h : s.Reliable) (p : Pattern) :
    s.hasMatch p = .ok (s.store.hasMatch p) := by
  unfold Source.hasMatch
  rw [h.scan]
  exact Feed.nonempty_ofList _

end Source

/-- Does some statement of the store have the node as its subject or object? -/
def Store.mentions (s : Store) (node : Term) : Bool :=
  s.toList.any fun st => st.subject = node || st.object = node

/-- So is whether a node is mentioned. -/
theorem Source.Reliable.mentions {s : Source} (h : s.Reliable) (node : Term) :
    s.mentions node = .ok (s.store.mentions node) := by
  unfold Source.mentions
  rw [Except.or_eq_ok (h.hasMatch _) (h.hasMatch _), Except.ok.injEq, Bool.eq_iff_iff,
    Bool.or_eq_true, Store.hasMatch_iff, Store.hasMatch_iff, Store.mentions, List.any_eq_true,
    ← exists_or]
  exact exists_congr fun st => by simp [Pattern.fits_iff, and_or_left]

/-! ## Selectors -/

theorem Selection.mem_ofList {terms : List Term} {x : Term} :
    x ∈ Selection.ofList terms ↔ x ∈ terms := Ordered.mem_ofList

theorem Selection.mem_addAll {selection : Selection} {terms : List Term} {x : Term} :
    x ∈ selection.addAll terms ↔ x ∈ selection ∨ x ∈ terms := Ordered.mem_insertAll

/-- The terms are in strictly ascending order. -/
abbrev Selection.Ascending (selection : Selection) : Prop :=
  Ordered.Ascending Term.compare selection

/-- Adding terms keeps a selection in order. -/
theorem Selection.Ascending.addAll {selection : Selection} (h : selection.Ascending)
    (terms : List Term) : (selection.addAll terms).Ascending :=
  Ordered.ascending_insertAll h

namespace Target

variable {source : Source} {delta : Delta} {target : Target} {x : Term}

/-- The ends of the hits of a pattern are those of the statements that fit. -/
theorem mem_map_scan {s : Store} {p : Pattern} {f : Statement → Term} :
    x ∈ (s.scan p).map f ↔ ∃ st ∈ s.toList, p.fits st = true ∧ f st = x := by
  simp only [List.mem_map, Store.mem_scan, and_assoc]

/-- The same for any test of statements. -/
theorem mem_map_filter {s : Store} {q : Statement → Bool} {f : Statement → Term} :
    x ∈ (s.toList.filter q).map f ↔ ∃ st ∈ s.toList, q st = true ∧ f st = x := by
  simp only [List.mem_map, List.mem_filter, and_assoc]

/-- A selector picks exactly the terms that it should. -/
theorem mem_select (h : source.Reliable) (target : Target) :
    ∃ selection, target.select source = .ok selection ∧
      ∀ x, x ∈ selection ↔ x ∈ target.picks source.store := by
  have hits : ∀ (p : Pattern) (f : Statement → Term),
      (do return Selection.ofList ((← source.hits p).map f)) =
        Except.ok (Selection.ofList ((source.store.scan p).map f)) := fun p f => by
    rw [h.hits]
    rfl
  cases target with
  | nodes listed => exact ⟨_, rfl, fun x => Selection.mem_ofList⟩
  | instancesOf c =>
    refine ⟨_, hits _ _, fun x => ?_⟩
    rw [Selection.mem_ofList, mem_map_scan, picks, mem_map_filter]
    simp [Pattern.fits_iff]
  | subjectsOf p =>
    refine ⟨_, hits _ _, fun x => ?_⟩
    rw [Selection.mem_ofList, mem_map_scan, picks, mem_map_filter]
    simp [Pattern.fits_iff]
  | objectsOf p =>
    refine ⟨_, hits _ _, fun x => ?_⟩
    rw [Selection.mem_ofList, mem_map_scan, picks, mem_map_filter]
    simp [Pattern.fits_iff]

/-- Asking about one term comes to the same as selecting all. -/
theorem contains_eq (h : source.Reliable) (target : Target) (x : Term) :
    target.contains source x = .ok (x ∈ target.picks source.store) := by
  -- the pattern fixes the picked position as well
  have hask : ∀ {p : Pattern} {P : Prop} [Decidable P], (source.store.hasMatch p = true ↔ P) →
      source.hasMatch p = .ok (decide P) := fun hP => by
    rw [h.hasMatch, Except.ok.injEq, Bool.eq_iff_iff, decide_eq_true_eq, hP]
  cases target with
  | nodes listed =>
    rw [contains, picks, Except.ok.injEq, Bool.eq_iff_iff, decide_eq_true_eq]
    exact List.contains_iff_mem
  | instancesOf c =>
    refine hask ?_
    rw [Store.hasMatch_iff, picks, mem_map_filter]
    exact exists_congr fun st => by simp [Pattern.fits_iff, and_comm, and_assoc]
  | subjectsOf p =>
    refine hask ?_
    rw [Store.hasMatch_iff, picks, mem_map_filter]
    exact exists_congr fun st => by simp [Pattern.fits_iff, and_comm]
  | objectsOf p =>
    refine hask ?_
    rw [Store.hasMatch_iff, picks, mem_map_filter]
    exact exists_congr fun st => by simp [Pattern.fits_iff]

/-! ## What a delta marks -/

/-- The terms whose selection one side of a delta bears on: a listed node if the side mentions it,
otherwise what the selector picks out of the side. -/
def marks (side : Store) : Target → List Term
  | nodes listed => listed.filter side.mentions
  | target => target.picks side

/-- One side of the delta marks the terms that it may have moved. -/
theorem mem_affectedBySide {side : Source} (h : side.Reliable) (target : Target) :
    ∃ terms, target.affectedBySide side = .ok terms ∧
      ∀ x, x ∈ terms ↔ x ∈ target.marks side.store := by
  cases target with
  | nodes listed =>
    exact ⟨_, Except.filterM_eq_ok fun node _ => h.mentions node, fun _ => Iff.rfl⟩
  | instancesOf c => exact mem_select h (.instancesOf c)
  | subjectsOf p => exact mem_select h (.subjectsOf p)
  | objectsOf p => exact mem_select h (.objectsOf p)

end Target

/-- No scan of either side of the delta fails. -/
structure Delta.Reliable (delta : Delta) : Prop where
  added : delta.added.Reliable
  removed : delta.removed.Reliable

namespace Delta

variable {delta : Delta}

/-- One side of the delta bears on whether the selector picks the term. -/
def Marks (delta : Delta) (target : Target) (x : Term) : Prop :=
  x ∈ target.marks delta.added.store ∨ x ∈ target.marks delta.removed.store

/-- A statement that the commit changes. -/
def Changes (delta : Delta) (st : Statement) : Prop :=
  st ∈ delta.added.store.toList ∨ st ∈ delta.removed.store.toList

/-- A changed statement on the path starts from the term. -/
def Starts (delta : Delta) (path : Option Path) (x : Term) : Prop :=
  ∃ p, path = some p ∧ ∃ st, delta.Changes st ∧ p.links x st = true

/-- A reliable delta touches a pattern if it changes a statement that fits. -/
theorem Reliable.touches (h : delta.Reliable) (p : Pattern) :
    ∃ b, delta.touches p = .ok b ∧ (b = true ↔ ∃ st, delta.Changes st ∧ p.fits st = true) := by
  refine ⟨_, Except.or_eq_ok (h.added.hasMatch p) (h.removed.hasMatch p), ?_⟩
  rw [Bool.or_eq_true, Store.hasMatch_iff, Store.hasMatch_iff, ← exists_or]
  exact exists_congr fun st => by rw [Changes, or_and_right]

end Delta

namespace Target

variable {delta : Delta}

/-- The affected terms of a selector are those that the delta marks. -/
theorem mem_affected (h : delta.Reliable) (target : Target) :
    ∃ selection, target.affected delta = .ok selection ∧
      ∀ x, x ∈ selection ↔ delta.Marks target x := by
  obtain ⟨new, hnew, hmem⟩ := target.mem_affectedBySide h.added
  obtain ⟨gone, hgone, hmem'⟩ := target.mem_affectedBySide h.removed
  refine ⟨_, by unfold affected; rw [hnew, hgone]; rfl, fun x => ?_⟩
  rw [Selection.mem_addAll, Selection.mem_ofList, hmem, hmem', Delta.Marks]

/-- Listed nodes are touched if either side mentions one of them. -/
theorem anyMentioned_eq (h : delta.Reliable) : ∀ listed : List Term,
    anyMentioned delta listed =
      .ok (listed.any fun node =>
        delta.added.store.mentions node || delta.removed.store.mentions node)
  | [] => rfl
  | node :: rest => by
    rw [anyMentioned, Except.or_eq_ok (h.added.mentions node)
      (Except.or_eq_ok (h.removed.mentions node) (anyMentioned_eq h rest)), List.any_cons,
      Bool.or_assoc]

/-- The quick test says whether there are affected terms. -/
theorem touchedBy_eq (h : delta.Reliable) (target : Target) :
    ∃ b, target.touchedBy delta = .ok b ∧ (b = true ↔ ∃ x, delta.Marks target x) := by
  -- every other selector looks for a pattern and picks one position of what it finds
  have hpicks : ∀ (p : Pattern) (f : Statement → Term),
      (∀ side : Store, ∀ x, x ∈ target.marks side ↔
        ∃ st ∈ side.toList, p.fits st = true ∧ f st = x) →
      ∃ b, delta.touches p = .ok b ∧ (b = true ↔ ∃ x, delta.Marks target x) := by
    intro p f hmarks
    obtain ⟨b, hb, hiff⟩ := h.touches p
    refine ⟨b, hb, hiff.trans ?_⟩
    constructor
    · intro hex
      obtain ⟨st, hst, hfits⟩ := hex
      refine ⟨f st, ?_⟩
      rcases hst with hm | hm
      · exact .inl ((hmarks _ _).2 ⟨st, hm, hfits, rfl⟩)
      · exact .inr ((hmarks _ _).2 ⟨st, hm, hfits, rfl⟩)
    · intro hor
      rcases hor with ⟨x, hx | hx⟩
      · obtain ⟨st, hm, hfits, -⟩ := (hmarks _ _).1 hx
        exact ⟨st, .inl hm, hfits⟩
      · obtain ⟨st, hm, hfits, -⟩ := (hmarks _ _).1 hx
        exact ⟨st, .inr hm, hfits⟩
  cases target with
  | nodes listed =>
    refine ⟨_, anyMentioned_eq h listed, ?_⟩
    rw [List.any_eq_true]
    refine exists_congr fun x => ?_
    rw [Delta.Marks, marks, marks, List.mem_filter, List.mem_filter, Bool.or_eq_true, and_or_left]
  | instancesOf c =>
    refine hpicks _ Statement.subject fun side x => ?_
    rw [marks, picks, mem_map_filter]
    · simp [Pattern.fits_iff]
    · nofun
  | subjectsOf p =>
    refine hpicks _ Statement.subject fun side x => ?_
    rw [marks, picks, mem_map_filter]
    · simp [Pattern.fits_iff]
    · nofun
  | objectsOf p =>
    refine hpicks _ Statement.object fun side x => ?_
    rw [marks, picks, mem_map_filter]
    · simp [Pattern.fits_iff]
    · nofun

end Target

end GraphShapes
