import GraphShapes.Proofs.RowFeed.Items
import Mathlib.Tactic.Linarith

/-!
# How many rows the operators deliver

No operator but the pairing join delivers more rows than it reads, and that one at most one row for
every pair of a left and a right row (`RowFeed.length_equalsJoin_le`).
-/

namespace GraphShapes

namespace Feed

variable {ε α β : Type}

@[simp]
theorem length_ofList (l : List α) : (ofList l : Feed ε α).length = l.length := by
  induction l with
  | nil => rfl
  | cons a l ih => rw [ofList, length, ih, List.length_cons]

/-- A feed that breaks off has delivered its list. -/
theorem length_breaking (e : ε) (l : List α) : (breaking e l).length = l.length := by
  induction l with
  | nil => rfl
  | cons a l ih => rw [breaking, length, ih, List.length_cons]

@[simp]
theorem length_prepend (l : List α) (feed : Feed ε α) :
    (prepend l feed).length = l.length + feed.length := by
  induction l with
  | nil => rw [prepend, List.length_nil, Nat.zero_add]
  | cons a l ih =>
    rw [prepend, length, ih, List.length_cons]
    omega

@[simp]
theorem length_map (f : α → β) (feed : Feed ε α) : (feed.map f).length = feed.length := by
  induction feed with
  | done => rfl
  | failed e => rfl
  | next a rest ih => rw [map, length, length, ih]

/-- Filtering adds no item. -/
theorem length_filter_le (keep : α → Bool) (feed : Feed ε α) :
    (feed.filter keep).length ≤ feed.length := by
  induction feed with
  | done => exact Nat.le_refl _
  | failed e => exact Nat.le_refl _
  | next a rest ih =>
    rw [filter]
    split
    · exact Nat.succ_le_succ ih
    · exact Nat.le_succ_of_le ih

/-- A feed that can be read to its end has as many items as are read. -/
theorem length_of_toExcept {feed : Feed ε α} {l : List α} (h : feed.toExcept = .ok l) :
    l.length = feed.length := by
  induction feed generalizing l with
  | done =>
    obtain rfl := Except.ok.inj h
    rfl
  | failed e => cases h
  | next a rest ih =>
    cases hrest : rest.toExcept with
    | error e => simp [toExcept, hrest, Except.map] at h
    | ok l' =>
      obtain rfl : a :: l' = l := by simpa [toExcept, hrest, Except.map] using h
      rw [List.length_cons, ih hrest, length]

/-- Where every item has at most so many successors. -/
theorem length_expand_le {f : α → Except ε (List β)} {n : Nat}
    (h : ∀ a l, f a = .ok l → l.length ≤ n) (feed : Feed ε α) :
    (feed.expand f).length ≤ feed.length * n := by
  induction feed with
  | done => exact Nat.zero_le _
  | failed e => exact Nat.zero_le _
  | next a rest ih =>
    rw [expand]
    cases hf : f a with
    | error e => exact Nat.zero_le _
    | ok l =>
      have hl := h a l hf
      simp only [length_prepend, length, Nat.succ_mul]
      omega

end Feed

namespace RowFeed

/-- Sorting delivers what it has read, or fails before. -/
theorem length_sorted_le (feed : RowFeed) : (sorted feed).length ≤ feed.length := by
  unfold sorted
  cases h : feed.toExcept with
  | error e => exact Nat.zero_le _
  | ok rows =>
    simp only [Feed.length_ofList]
    rw [(Ordered.perm_sort rows).length_eq, Feed.length_of_toExcept h]

/-- Dropping repetitions adds no row. -/
theorem length_uniqueFrom_le (width : Option Nat) (seen : List (List Term)) (feed : RowFeed) :
    (uniqueFrom width seen feed).length ≤ feed.length := by
  induction feed generalizing seen with
  | done => exact Nat.le_refl _
  | failed e => exact Nat.le_refl _
  | next row rest ih =>
    rw [uniqueFrom]
    split
    · exact Nat.le_succ_of_le (ih seen)
    · exact Nat.succ_le_succ (ih _)

/-- One row and the rest of a merge. -/
theorem length_mergeNext_le (row : Row) {mergeRest : RowFeed → RowFeed} {n : Nat}
    (h : ∀ feed, (mergeRest feed).length ≤ n + feed.length) (feed : RowFeed) :
    (mergeNext row mergeRest feed).length ≤ n + 1 + feed.length := by
  induction feed with
  | done =>
    have hrest := h .done
    simp only [mergeNext, Feed.length] at hrest ⊢
    omega
  | failed e => exact Nat.zero_le _
  | next other rest ih =>
    rw [mergeNext]
    split
    · have hrest := h (.next other rest)
      simp only [Feed.length] at hrest ⊢
      omega
    · simp only [Feed.length]
      omega

/-- A merge delivers the rows of both feeds at most. -/
theorem length_merge_le (left right : RowFeed) :
    (merge left right).length ≤ left.length + right.length := by
  induction left generalizing right with
  | done => rw [merge]; exact Nat.le_add_left _ _
  | failed e => rw [merge]; exact Nat.zero_le _
  | next row rest ih => rw [merge]; exact length_mergeNext_le row ih right

/-- A merge of several delivers the rows of all at most. -/
theorem length_mergeAll_le (feeds : List RowFeed) :
    (mergeAll feeds).length ≤ (feeds.map Feed.length).sum := by
  induction feeds with
  | nil => exact Nat.le_refl _
  | cons feed rest ih =>
    have hmerge := length_merge_le feed (mergeAll rest)
    rw [List.map_cons, List.sum_cons]
    exact Nat.le_trans hmerge (Nat.add_le_add_left ih _)

/-- The pairs of two groups. -/
theorem length_pairs (keyLength : Nat) (lefts rights : List Row) :
    (pairs keyLength lefts rights).length = lefts.length * rights.length := by
  unfold pairs
  induction lefts with
  | nil => simp
  | cons l ls ih =>
    rw [List.flatMap_cons, List.length_append, ih, List.length_map, List.length_cons, Nat.succ_mul]
    omega

/-- The pairing join delivers at most all pairs. -/
theorem length_equalsJoin_le (width : Option Nat) (left right : RowFeed) :
    (equalsJoin width left right).length ≤ left.length * right.length := by
  fun_induction equalsJoin width left right
  case case1 | case2 | case3 | case4 | case5 | case8 | case9 => exact Nat.zero_le _
  case case6 l ls r rs key hlt ih =>
    refine Nat.le_trans ih ?_
    simp only [Feed.length]
    nlinarith
  case case7 l ls r rs key hgt ih =>
    refine Nat.le_trans ih ?_
    simp only [Feed.length]
    nlinarith
  case case10 l ls r rs key heq lefts ls' hlefts rights rs' hrights ih =>
    have hls := length_of_takeGroup hlefts
    have hrs := length_of_takeGroup hrights
    rw [Feed.length_prepend, length_pairs, Feed.length, Feed.length, ← hls, ← hrs, List.length_cons,
      List.length_cons]
    nlinarith

/-- An inner join delivers at most one row for each on the left. -/
theorem length_innerJoin_le (left right : RowFeed) :
    (innerJoin left right).length ≤ left.length := by
  fun_induction innerJoin left right
  case case1 | case2 | case3 | case4 | case5 | case8 | case9 => exact Nat.zero_le _
  case case6 l ls r rs hlt ih => exact Nat.le_succ_of_le ih
  case case7 l ls r rs hgt ih => exact ih
  case case10 l ls r rs heq lefts ls' hlefts rights rs' hrights ih =>
    have hls := length_of_takeGroup hlefts
    simp only [Feed.length]
    omega

/-- So does an anti join. -/
theorem length_antiJoin_le (left right : RowFeed) :
    (antiJoin left right).length ≤ left.length := by
  induction left generalizing right with
  | done => exact Nat.le_of_eq (by rw [antiJoin])
  | failed e => exact Nat.le_of_eq (by rw [antiJoin])
  | next l ls ih =>
    rw [antiJoin]
    cases skipBelow l.target right with
    | failed e => exact Nat.zero_le _
    | done => exact Nat.succ_le_succ (ih .done)
    | next r rs =>
      simp only
      split
      · exact Nat.le_succ_of_le (ih _)
      · exact Nat.succ_le_succ (ih _)

/-- So does a count of values. -/
theorem length_countValues_le (test : List Term → Bool) (left right : RowFeed) :
    (countValues test left right).length ≤ left.length := by
  induction left generalizing right with
  | done => exact Nat.le_of_eq (by rw [countValues])
  | failed e => exact Nat.le_of_eq (by rw [countValues])
  | next t ts ih =>
    rw [countValues]
    cases gather t.target right with
    | error e => exact Nat.zero_le _
    | ok group =>
      simp only
      split
      · exact Nat.succ_le_succ (ih _)
      · exact Nat.le_succ_of_le (ih _)

end RowFeed

end GraphShapes
