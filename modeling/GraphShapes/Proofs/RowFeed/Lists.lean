import GraphShapes.Proofs.Row.Order
import GraphShapes.RowFeed

/-!
# Feeds without a failure

The feed of a list goes through the stages with one input as the list itself would: `map`,
`filter`, `expand`, `sorted` and `unique` each answer with the feed of a list, and the list is one
that the standard library knows. `unique` keeps the first row of every key (`unique_ofList`); on
ascending rows it leaves every line once, in strictly ascending order (`strict_eraseDupsBy`).
-/

namespace GraphShapes

namespace Feed

variable {ε α β : Type}

/-- The feed of a list can be read to its end. -/
@[simp]
theorem toExcept_ofList (l : List α) : (ofList l : Feed ε α).toExcept = .ok l := by
  induction l with
  | nil => rfl
  | cons a l ih => rw [ofList, toExcept, ih]; rfl

/-- Lists with the same feed are the same. -/
theorem ofList_injective : Function.Injective (ofList : List α → Feed ε α) := fun l l' h =>
  Except.ok.inj ((toExcept_ofList l).symm.trans (h ▸ toExcept_ofList l'))

theorem map_ofList (f : α → β) (l : List α) :
    (ofList l : Feed ε α).map f = ofList (l.map f) := by
  induction l with
  | nil => rfl
  | cons a l ih => rw [ofList, map, ih]; rfl

theorem filter_ofList (keep : α → Bool) (l : List α) :
    (ofList l : Feed ε α).filter keep = ofList (l.filter keep) := by
  induction l with
  | nil => rfl
  | cons a l ih =>
    rw [ofList, filter, ih, List.filter_cons]
    split <;> rfl

theorem prepend_ofList (l l' : List α) :
    prepend l (ofList l' : Feed ε α) = ofList (l ++ l') := by
  induction l with
  | nil => rfl
  | cons a l ih => rw [prepend, ih]; rfl

/-- Items that are put in front one list after the other. -/
theorem prepend_append (l l' : List α) (feed : Feed ε α) :
    prepend (l ++ l') feed = prepend l (prepend l' feed) := by
  induction l with
  | nil => rfl
  | cons a l ih => exact congrArg (next a) ih

/-- Items that were put in front come first. -/
theorem toExcept_prepend (l : List α) (feed : Feed ε α) :
    (prepend l feed).toExcept = feed.toExcept.map (l ++ ·) := by
  induction l with
  | nil =>
    rw [prepend]
    cases feed.toExcept <;> rfl
  | cons a l ih =>
    rw [prepend, toExcept, ih]
    cases feed.toExcept <;> rfl

/-- Where no item fails, expanding is mapping to lists and putting these in a row. -/
theorem expand_ofList {f : α → Except ε (List β)} {g : α → List β} {l : List α}
    (h : ∀ a ∈ l, f a = .ok (g a)) : (ofList l).expand f = ofList (l.flatMap g) := by
  induction l with
  | nil => rfl
  | cons a l ih =>
    obtain ⟨ha, hl⟩ := List.forall_mem_cons.1 h
    rw [ofList, expand, ha, List.flatMap_cons, ← prepend_ofList, ih hl]

/-- The feed of a list has an item if the list has one. -/
theorem nonempty_ofList (l : List α) : (ofList l : Feed ε α).nonempty = .ok (!l.isEmpty) := by
  cases l <;> rfl

/-- Only the feed of a list is read to a regular end. -/
theorem eq_ofList_of_toExcept : ∀ {feed : Feed ε α} {l : List α}, feed.toExcept = .ok l →
    feed = ofList l
  | done, _, h => Except.ok.inj h ▸ rfl
  | failed _, _, h => nomatch h
  | next a rest, _, h => by
    rw [toExcept] at h
    cases hr : rest.toExcept with
    | error e => rw [hr] at h; cases h
    | ok l =>
      rw [hr] at h
      obtain rfl := Except.ok.inj h
      rw [ofList, eq_ofList_of_toExcept hr]

/-- Its first items are those of the list, and there are more if the list is longer. -/
theorem takeUpTo_ofList : ∀ (n : Nat) (l : List α),
    (ofList l : Feed ε α).takeUpTo n = .ok (l.take n, decide (n < l.length))
  | 0, l => by
    rw [takeUpTo, nonempty_ofList]
    cases l <;> rfl
  | _ + 1, [] => rfl
  | n + 1, a :: l => by
    rw [ofList, takeUpTo, takeUpTo_ofList n l, List.length_cons, List.take_succ_cons]
    simp [Except.map]

end Feed

namespace RowFeed

variable {rows : List Row} {width : Option Nat}

theorem trim_ofList (n : Nat) : trim n (Feed.ofList rows) = Feed.ofList (rows.map (Row.trim n)) :=
  Feed.map_ofList ..

theorem tag_ofList (shape : ShapeId) :
    tag shape (Feed.ofList rows) = Feed.ofList (rows.map (Row.tag shape)) :=
  Feed.map_ofList ..

theorem sorted_ofList :
    sorted (Feed.ofList rows) = Feed.ofList (Ordered.sort Row.compare rows) := by
  rw [sorted, Feed.toExcept_ofList]

/-- Have the rows the same key? -/
def sameKey (width : Option Nat) (a b : Row) : Bool := a.keyOf width = b.keyOf width

/-- Rows whose key was seen before are dropped, and of the others the first of every key is kept. -/
theorem uniqueFrom_ofList : ∀ {rows : List Row} {seen : List (List Term)},
    uniqueFrom width seen (Feed.ofList rows) =
      Feed.ofList ((rows.filter fun r => r.keyOf width ∉ seen).eraseDupsBy (sameKey width))
  | [], _ => rfl
  | row :: rows, seen => by
    rw [Feed.ofList, uniqueFrom]
    split
    · next h => rw [uniqueFrom_ofList, List.filter_cons_of_neg (by simpa using h)]
    · next h =>
      rw [uniqueFrom_ofList, List.filter_cons_of_pos (by simpa using h), List.eraseDupsBy_cons,
        List.filter_filter, Feed.ofList]
      congr 3
      refine List.filter_congr fun r _ => ?_
      simp [sameKey, List.mem_cons, not_or]

/-- The stage keeps the first row of every key. -/
theorem unique_ofList :
    unique width (Feed.ofList rows) = Feed.ofList (rows.eraseDupsBy (sameKey width)) := by
  rw [unique, uniqueFrom_ofList]
  congr 2
  exact List.filter_eq_self.2 fun _ _ => by simp

/-- What is kept stands in the order that it had. -/
theorem eraseDupsBy_sublist {α : Type} {r : α → α → Bool} : ∀ (l : List α),
    (l.eraseDupsBy r).Sublist l
  | [] => List.Sublist.refl _
  | a :: l => by
    rw [List.eraseDupsBy_cons]
    exact ((eraseDupsBy_sublist _).trans List.filter_sublist).cons_cons a
termination_by l => l.length
decreasing_by exact Nat.lt_succ_of_le (List.length_filter_le ..)

/-- No two rows that are kept have the same key. -/
theorem pairwise_eraseDupsBy : ∀ (rows : List Row),
    (rows.eraseDupsBy (sameKey width)).Pairwise fun a b => a.keyOf width ≠ b.keyOf width
  | [] => .nil
  | a :: rows => by
    rw [List.eraseDupsBy_cons]
    refine .cons (fun b hb => ?_) (pairwise_eraseDupsBy _)
    have hb := (List.mem_filter.1 ((eraseDupsBy_sublist _).subset hb)).2
    exact fun e => by simp [sameKey, e] at hb
termination_by rows => rows.length
decreasing_by exact Nat.lt_succ_of_le (List.length_filter_le ..)

/-- Where no key occurs twice, there is nothing to drop. -/
theorem eraseDupsBy_eq_self : ∀ {rows : List Row},
    (rows.Pairwise fun a b => a.keyOf width ≠ b.keyOf width) →
      rows.eraseDupsBy (sameKey width) = rows
  | [], _ => rfl
  | a :: rows, h => by
    obtain ⟨ha, hrows⟩ := List.pairwise_cons.1 h
    have hfilter : (rows.filter fun b => sameKey width b a = false) = rows :=
      List.filter_eq_self.2 fun b hb => by simpa [sameKey] using (ha b hb).symm
    rw [List.eraseDupsBy_cons, hfilter, eraseDupsBy_eq_self hrows]

/-- Every key is still there. -/
theorem exists_mem_eraseDupsBy : ∀ {rows : List Row} {r : Row}, r ∈ rows →
    ∃ r' ∈ rows.eraseDupsBy (sameKey width), r'.keyOf width = r.keyOf width
  | a :: rows, r, hr => by
    rw [List.eraseDupsBy_cons]
    by_cases hk : r.keyOf width = a.keyOf width
    · exact ⟨a, List.mem_cons_self .., hk.symm⟩
    · have hr : r ∈ rows := (List.mem_cons.1 hr).resolve_left fun e => hk (e ▸ rfl)
      have hr : r ∈ rows.filter fun b => sameKey width b a = false :=
        List.mem_filter.2 ⟨hr, by simpa [sameKey] using hk⟩
      obtain ⟨r', hr', hk'⟩ := exists_mem_eraseDupsBy hr
      exact ⟨r', List.mem_cons_of_mem _ hr', hk'⟩
termination_by rows => rows.length
decreasing_by exact Nat.lt_succ_of_le (List.length_filter_le ..)

/-- No line is lost. -/
theorem mem_lines_eraseDupsBy {l : List Term} :
    l ∈ (rows.eraseDupsBy (sameKey none)).map Row.line ↔ l ∈ rows.map Row.line := by
  rw [List.mem_map, List.mem_map]
  constructor
  · intro h
    obtain ⟨r, hr, rfl⟩ := h
    exact ⟨r, (eraseDupsBy_sublist _).subset hr, rfl⟩
  · intro h
    obtain ⟨r, hr, rfl⟩ := h
    exact exists_mem_eraseDupsBy hr

/-- Dropping repetitions makes ascending rows strictly ascending. -/
theorem strict_eraseDupsBy (h : Row.Sorted rows) :
    Row.Strict (rows.eraseDupsBy (sameKey none)) := by
  refine List.Pairwise.imp₂ (fun a b hle hne => ?_) (h.sublist (eraseDupsBy_sublist _))
    (pairwise_eraseDupsBy rows)
  have hne : Row.compareLines a.line b.line ≠ .eq :=
    fun e => hne (Std.LawfulEqCmp.eq_of_compare e)
  exact Ordered.eq_lt_of_isLE hle hne

end RowFeed

end GraphShapes
