import GraphShapes.Plan.Load
import GraphShapes.Plan.Meaning
import GraphShapes.Proofs.RowFeed.Length
import GraphShapes.Proofs.RowFeed.Lists
import GraphShapes.Proofs.Store.Scan
import Mathlib.Data.List.Nodup

/-!
# The limits of plans

`Plan.limit` is a bound for the number of rows that a plan delivers (`Plan.meaning_atMost`), if the
splitters that it reads keep to theirs. Such a bound is proved of a computation that may fail:
`Except.AtMost` says nothing of a failure. Both `Plan.limit` and `Plan.load` depend on the splitters
only by those that the plan reads.
-/

namespace GraphShapes

/-- The result, if there is one, has at most a given size. -/
def Except.AtMost {ε α : Type} (size : α → Nat) (n : Nat) (x : Except ε α) : Prop :=
  ∀ a, x = .ok a → size a ≤ n

namespace Except.AtMost

variable {ε α β : Type} {size : α → Nat} {size' : β → Nat} {m n : Nat}

theorem pure {a : α} (h : size a ≤ n) : AtMost size n (.ok a : Except ε α) := by
  intro a' ha
  obtain rfl := Except.ok.inj ha
  exact h

theorem error (e : ε) : AtMost size n (.error e) := nofun

/-- A bound for the first computation may be used for the second. -/
theorem bind {x : Except ε α} {f : α → Except ε β} (h : AtMost size m x)
    (hf : ∀ a, size a ≤ m → AtMost size' n (f a)) : AtMost size' n (x >>= f) := by
  cases x with
  | error e => exact error e
  | ok a => exact hf a (h a rfl)

/-- A bound may be raised. -/
theorem mono {x : Except ε α} (h : AtMost size m x) (hmn : m ≤ n) : AtMost size n x :=
  fun a ha => Nat.le_trans (h a ha) hmn

/-- Filtering makes no list longer. -/
theorem filterM (f : α → Except ε Bool) (l : List α) :
    AtMost List.length l.length (l.filterM f) := by
  have haux : ∀ l acc : List α,
      AtMost List.length (l.length + acc.length) (l.filterAuxM f acc) := by
    intro l
    induction l with
    | nil => exact fun acc => pure (Nat.le_add_left _ _)
    | cons a l ih =>
      intro acc
      have hbool : AtMost Bool.toNat 1 (f a) := fun b _ => Bool.toNat_le b
      refine hbool.bind fun b _ => (ih _).mono ?_
      cases b <;> simp
      omega
  exact (haux l []).bind fun l' hl' => pure (by simpa using hl')

end Except.AtMost

namespace Ordered

variable {α : Type} {cmp : α → α → Ordering}

/-- Inserting into a set adds one item at most. -/
theorem length_insert_le (a : α) (l : List α) : (insert cmp a l).length ≤ l.length + 1 := by
  induction l with
  | nil => exact Nat.le_refl _
  | cons b l ih =>
    rw [insert]
    split
    · exact Nat.le_refl _
    · exact Nat.le_succ _
    · exact Nat.succ_le_succ ih

/-- Inserting several adds as many at most. -/
theorem length_insertAll_le (items : List α) : ∀ set : List α,
    (insertAll cmp set items).length ≤ set.length + items.length := by
  induction items with
  | nil => exact fun set => Nat.le_refl _
  | cons a items ih =>
    intro set
    have hinsert : (insert cmp a set).length ≤ set.length + 1 := length_insert_le a set
    have hrest : (insertAll cmp (insert cmp a set) items).length ≤ _ := ih _
    rw [List.length_cons]
    show (insertAll cmp (insert cmp a set) items).length ≤ _
    omega

/-- The set of a list is no longer than the list. -/
theorem length_ofList_le (items : List α) : (ofList cmp items).length ≤ items.length := by
  have h : (insertAll cmp [] items).length ≤ ([] : List α).length + items.length :=
    length_insertAll_le items []
  rw [List.length_nil, Nat.zero_add] at h
  exact h

/-- In a list that ascends strictly, nothing occurs twice. -/
theorem Ascending.nodup [Std.ReflCmp cmp] {l : List α} (h : Ascending cmp l) : l.Nodup := by
  refine h.imp fun {a b} hlt heq => ?_
  have hself : cmp b b = .eq := Std.ReflCmp.compare_self
  rw [heq, hself] at hlt
  cases hlt

end Ordered

/-! ## Scans -/

namespace Store

variable (s : Store)

/-- Both orders hold every statement once. -/
theorem length_byPredicate : s.byPredicate.length = s.size :=
  ((List.perm_ext_iff_of_nodup s.ascendingByPredicate.nodup s.ascending.nodup).2 s.agree).length_eq

/-- A scan finds no more statements than there are. -/
theorem length_scan_le (p : Pattern) : (s.scan p).length ≤ s.size := by
  by_cases h : p.subject = none → p.predicate = none
  · rw [scan_eq_filter_bySubject h]
    exact List.length_filter_le _ _
  · obtain ⟨hs, hp⟩ := Classical.not_imp.1 h
    obtain ⟨t, hp⟩ := Option.ne_none_iff_exists'.1 hp
    rw [scan_eq_filter_byPredicate hs hp, ← s.length_byPredicate]
    exact List.length_filter_le _ _

end Store

/-- A pattern has no more hits than there are statements. -/
theorem Source.hits_atMost (s : Source) (p : Pattern) :
    Except.AtMost List.length s.store.size (s.hits p) := by
  intro l hl
  unfold Source.hits Source.scan at hl
  cases hfault : s.fault p with
  | none =>
    rw [hfault] at hl
    obtain rfl : s.store.scan p = l := by
      simpa [Bind.bind, Except.bind] using hl
    exact s.store.length_scan_le p
  | some fault =>
    rw [hfault] at hl
    cases fault with
    | refused e => cases hl
    | brokenOff n e =>
      have hl : (Feed.breaking e ((s.store.scan p).take n)).toExcept = .ok l := hl
      have hlength := Feed.length_of_toExcept hl
      rw [Feed.length_breaking, List.length_take] at hlength
      have hscan := s.store.length_scan_le p
      omega

/-- A row is replaced by no more rows than there are statements, or by itself. -/
theorem Path.rowsOf_atMost (source : Source) (path : Option Path) (row : Row) :
    Except.AtMost List.length (source.store.size + 1) (Path.rowsOf source path row) := by
  cases path with
  | none => exact .pure (Nat.le_add_left 1 _)
  | some p =>
    unfold Path.rowsOf
    simp only
    cases hhits : source.hits (p.pattern row.target) with
    | error e => exact .error _
    | ok sts =>
      refine .pure ?_
      have hlength := source.hits_atMost _ sts hhits
      rw [List.length_map]
      omega

/-! ## Targets -/

namespace Target

/-- The terms at one end of the statements that a scan finds. -/
theorem ends_atMost (source : Source) (p : Pattern) (f : Statement → Term) :
    Except.AtMost List.length source.store.size
      (do return Selection.ofList ((← source.hits p).map f)) := by
  refine (source.hits_atMost p).bind fun sts hsts => .pure ?_
  refine Nat.le_trans (Ordered.length_ofList_le _) ?_
  rwa [List.length_map]

/-- A selector picks no more targets than its limit says. -/
theorem select_atMost (source : Source) (target : Target) :
    Except.AtMost List.length (target.limit source.store.size) (target.select source) := by
  cases target with
  | nodes listed =>
    have hlength : (Selection.ofList listed).length ≤ listed.length := Ordered.length_ofList_le _
    exact .pure (by rw [limit]; omega)
  | instancesOf c => exact ends_atMost source _ Statement.subject
  | subjectsOf p => exact ends_atMost source _ Statement.subject
  | objectsOf p => exact ends_atMost source _ Statement.object

/-- One side of a delta moves in or out as many at most as are listed or as it has statements. -/
theorem affectedBySide_atMost (side : Source) (target : Target) :
    Except.AtMost List.length
      (match target with
        | nodes listed => listed.length
        | _ => side.store.size) (target.affectedBySide side) := by
  cases target with
  | nodes listed => exact .filterM side.mentions listed
  | instancesOf c => exact ends_atMost side _ Statement.subject
  | subjectsOf p => exact ends_atMost side _ Statement.subject
  | objectsOf p => exact ends_atMost side _ Statement.object

/-- Both sides together do not go beyond the limit of the selector. -/
theorem affected_atMost (delta : Delta) (target : Target) :
    Except.AtMost List.length (target.limit (delta.added.store.size + delta.removed.store.size))
      (target.affected delta) := by
  refine (target.affectedBySide_atMost delta.added).bind fun new hnew => ?_
  refine (target.affectedBySide_atMost delta.removed).bind fun gone hgone => .pure ?_
  have hset : (Selection.ofList new).length ≤ new.length := Ordered.length_ofList_le _
  have hall : ((Selection.ofList new).addAll gone).length ≤
      (Selection.ofList new).length + gone.length := Ordered.length_insertAll_le _ _
  cases target <;> simp only [limit] at hnew hgone ⊢ <;> omega

end Target

namespace TargetScan

/-- The limits of the selectors add up; `more` is what else there may be. -/
theorem selectAll_atMost {select : Target → Except Error Selection} {bound : Target → Nat}
    (h : ∀ t, Except.AtMost List.length (bound t) (select t)) (more : Nat) :
    ∀ (targets : List Target) (acc : Selection) (n : Nat), acc.length + more ≤ n →
      Except.AtMost (fun terms => terms.length + more) (targets.foldl (fun n t => n + bound t) n)
        (selectAll select targets acc)
  | [], _, _, hacc => .pure hacc
  | t :: rest, acc, n, hacc => by
    refine (h t).bind fun terms hterms => selectAll_atMost h more rest _ _ ?_
    have hall : (acc.addAll terms).length ≤ acc.length + terms.length :=
      Ordered.length_insertAll_le _ _
    show (acc.addAll terms).length + more ≤ n + bound t
    omega

/-- A delta has changed along a path no more subjects than it has statements. -/
theorem changedAlong_atMost (delta : Delta) (path : Option Path) :
    Except.AtMost List.length (delta.added.store.size + delta.removed.store.size)
      (changedAlong delta path) := by
  cases path with
  | none => exact .pure (Nat.zero_le _)
  | some p =>
    refine (delta.added.hits_atMost _).bind fun new hnew => ?_
    refine (delta.removed.hits_atMost _).bind fun gone hgone => .pure ?_
    rw [List.length_map, List.length_append]
    omega

/-- A scan for targets finds no more than its limit says. -/
theorem select_atMost (scan : TargetScan) : Except.AtMost List.length scan.limit scan.select := by
  obtain ⟨source, targets, mode⟩ := scan
  cases mode with
  | all => exact selectAll_atMost (Target.select_atMost source) 0 targets [] 0 (Nat.zero_le _)
  | affected delta path =>
    refine (selectAll_atMost (Target.affected_atMost delta)
      (delta.added.store.size + delta.removed.store.size) targets [] _
      (Nat.le_of_eq (Nat.zero_add _))).bind fun chosen hchosen => ?_
    refine (changedAlong_atMost delta path).bind fun changed hchanged => ?_
    refine (Except.AtMost.filterM _ _).mono ?_
    have hall : (Selection.addAll chosen changed).length ≤ chosen.length + changed.length :=
      Ordered.length_insertAll_le _ _
    simp only [limit]
    omega

/-- So it delivers no more rows. -/
theorem length_rows_le (scan : TargetScan) : scan.rows.length ≤ scan.limit := by
  unfold rows
  cases h : scan.select with
  | error e => exact Nat.zero_le _
  | ok terms =>
    have hterms := scan.select_atMost terms h
    simp only [Feed.length_ofList, List.length_map]
    exact hterms

end TargetScan

/-- A producer delivers no more rows than it has. -/
theorem Probe.meaning_atMost (p : Probe) : Except.AtMost Feed.length p.rows.length p.meaning := by
  unfold meaning
  cases p.refusal with
  | some e => exact .error e
  | none =>
    refine .pure ?_
    unfold feed
    cases p.breakOff with
    | none => exact Nat.le_of_eq (Feed.length_ofList _)
    | some limit =>
      simp only
      split
      · rw [Feed.length_breaking, List.length_take]
        omega
      · exact Nat.le_of_eq (Feed.length_ofList _)

/-! ## Plans -/

namespace Plan

section Limit

variable {delivered : SplitterId → Except OpError RowFeed} {bound : SplitterId → Nat}

mutual

/-- A plan delivers at most as many rows as its limit says. -/
theorem meaning_atMost (h : ∀ s, Except.AtMost Feed.length (bound s) (delivered s)) : ∀ plan : Plan,
    Except.AtMost Feed.length (plan.limit bound) (plan.meaning delivered)
  | empty _ => .pure (Nat.zero_le _)
  | values rows _ => .pure (Nat.le_of_eq (Feed.length_ofList rows))
  | probe p => p.meaning_atMost
  | targetScan scan => .pure scan.length_rows_le
  | reader s _ => h s
  | valuesOf targets source path => (meaning_atMost h targets).bind fun feed hfeed =>
      .pure (Nat.le_trans (Feed.length_expand_le (Path.rowsOf_atMost source path) feed)
        (Nat.mul_le_mul_right _ hfeed))
  | countValues targets vs _ test => (meaning_atMost h targets).bind fun feed hfeed =>
      (meaning_atMost h vs).bind fun values _ =>
        .pure (Nat.le_trans (RowFeed.length_countValues_le test feed values) hfeed)
  | filter input _ keep => (meaning_atMost h input).bind fun feed hfeed =>
      .pure (Nat.le_trans (Feed.length_filter_le keep feed) hfeed)
  | trim input width => (meaning_atMost h input).bind fun feed hfeed =>
      .pure (Nat.le_trans (Nat.le_of_eq (Feed.length_map _ feed)) hfeed)
  | sort input => by
    rw [meaning]
    cases hfeed : input.meaning delivered with
    | error e => exact .pure (Nat.zero_le _)
    | ok feed =>
      exact .pure (Nat.le_trans (RowFeed.length_sorted_le feed) (meaning_atMost h input feed hfeed))
  | unique input width => (meaning_atMost h input).bind fun feed hfeed =>
      .pure (Nat.le_trans (RowFeed.length_uniqueFrom_le width [] feed) hfeed)
  | union inputs => by
    rw [meaning]
    cases hfeeds : meanings delivered inputs with
    | error e => exact .error e
    | ok feeds =>
      obtain ⟨hsum, -⟩ := meanings_atMost h inputs feeds hfeeds
      exact .pure (Nat.le_trans (RowFeed.length_mergeAll_le feeds) hsum)
  | tag input shape => (meaning_atMost h input).bind fun feed hfeed =>
      .pure (Nat.le_trans (Nat.le_of_eq (Feed.length_map _ feed)) hfeed)
  | relabel input _ => meaning_atMost h input
  | equalsJoin left right allColumns => (meaning_atMost h left).bind fun l hl =>
      (meaning_atMost h right).bind fun r hr =>
        .pure (Nat.le_trans (RowFeed.length_equalsJoin_le _ l r) (Nat.mul_le_mul hl hr))
  | innerJoin left right => (meaning_atMost h left).bind fun l hl =>
      (meaning_atMost h right).bind fun r _ =>
        .pure (Nat.le_trans (RowFeed.length_innerJoin_le l r) hl)
  | antiJoin left right => (meaning_atMost h left).bind fun l hl =>
      (meaning_atMost h right).bind fun r _ =>
        .pure (Nat.le_trans (RowFeed.length_antiJoin_le l r) hl)

/-- Each of several plans delivers one feed, and its limit counts. -/
theorem meanings_atMost (h : ∀ s, Except.AtMost Feed.length (bound s) (delivered s)) :
    ∀ (plans : List Plan) (feeds : List RowFeed), meanings delivered plans = .ok feeds →
      (feeds.map Feed.length).sum ≤ limits bound plans ∧ feeds.length = plans.length
  | [], feeds, hfeeds => by
    obtain rfl := Except.ok.inj hfeeds
    exact ⟨Nat.le_refl 0, rfl⟩
  | p :: rest, feeds, hfeeds => by
    rw [meanings] at hfeeds
    cases hp : p.meaning delivered with
    | error e => simp [hp, Bind.bind, Except.bind] at hfeeds
    | ok feed =>
      cases hrest : meanings delivered rest with
      | error e => simp [hp, hrest, Bind.bind, Except.bind] at hfeeds
      | ok feeds' =>
        obtain rfl : feed :: feeds' = feeds := by
          simpa [hp, hrest, Bind.bind, Except.bind, Pure.pure, Except.pure] using hfeeds
        obtain ⟨hsum, hlength⟩ := meanings_atMost h rest feeds' hrest
        constructor
        · rw [List.map_cons, List.sum_cons]
          exact Nat.add_le_add (meaning_atMost h p feed hp) hsum
        · rw [List.length_cons, List.length_cons, hlength]

end

end Limit

end Plan

end GraphShapes
