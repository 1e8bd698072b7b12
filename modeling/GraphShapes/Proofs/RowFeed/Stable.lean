import GraphShapes.Proofs.RowFeed.Merge

/-!
# Merging is stable

Merging lists takes their rows one at a time and each list in its own order (`Interleaves`),
whatever the rows are. From ascending lists it makes the stable sort of all rows
(`mergeAllLists_eq_sort`): rows of one line stay in the order of the lists that they come from, and
of one list in the order in which they stand there.

An ascending list is determined by its copies of every line (`Row.Sorted.eq_of_copies`), and both
the merge and the sort keep the copies of a line as they are. A merge keeps them because it hands on
a right row only if that is smaller than everything that is left of the left list.
-/

namespace GraphShapes

/-! ## Interleaving -/

/-- The items are those of the lists, taken one at a time from the front of some list until all of
them are used up. -/
inductive Interleaves {α : Type} : List (List α) → List α → Prop where
  | usedUp {ls : List (List α)} (h : ∀ l ∈ ls, l = []) : Interleaves ls []
  | take {before after : List (List α)} {a : α} {l items : List α}
      (h : Interleaves (before ++ l :: after) items) :
      Interleaves (before ++ (a :: l) :: after) (a :: items)

namespace Interleaves

variable {α : Type} {ls : List (List α)} {items : List α}

/-- An item of the first list is taken. -/
theorem first {a : α} {l : List α} (h : Interleaves (l :: ls) items) :
    Interleaves ((a :: l) :: ls) (a :: items) := by
  rw [← List.nil_append (_ :: ls)] at h ⊢
  exact take h

/-- A list without items changes nothing. -/
theorem nil_cons (h : Interleaves ls items) : Interleaves ([] :: ls) items := by
  induction h with
  | usedUp h => exact .usedUp (List.forall_mem_cons.2 ⟨rfl, h⟩)
  | take _ ih =>
    rw [← List.cons_append] at ih ⊢
    exact take ih

/-- Whatever decides from which side to take, the merge of a list with an interleaving is an
interleaving. -/
theorem merge (le : α → α → Bool) (h : Interleaves ls items) :
    ∀ l : List α, Interleaves (l :: ls) (l.merge items le) := by
  induction h with
  | @usedUp ls h =>
    intro l
    rw [List.merge_right]
    induction l with
    | nil => exact .usedUp (List.forall_mem_cons.2 ⟨rfl, h⟩)
    | cons a l ih => exact ih.first
  | @take before after b m items h ih =>
    intro l
    induction l with
    | nil =>
      rw [List.nil_merge]
      exact (take h).nil_cons
    | cons a l ihl =>
      -- whichever head is taken, the other list stays whole
      rw [List.cons_merge_cons]
      split
      · exact ihl.first
      · have hrest := ih (a :: l)
        rw [← List.cons_append] at hrest ⊢
        exact take hrest

end Interleaves

/-! ## Copies of a line -/

namespace Row

/-- The rows with a line, in their order. -/
def copies (line : List Term) (rows : List Row) : List Row := rows.filter fun r => r.line = line

variable {line : List Term} {r : Row} {rows rows' : List Row}

theorem mem_copies : r ∈ copies line rows ↔ r ∈ rows ∧ r.line = line := by
  rw [copies, List.mem_filter, decide_eq_true_eq]

theorem copies_append : copies line (rows ++ rows') = copies line rows ++ copies line rows' :=
  List.filter_append ..

theorem copies_cons_self (r : Row) (rows : List Row) :
    copies r.line (r :: rows) = r :: copies r.line rows :=
  List.filter_cons_of_pos (decide_eq_true rfl)

theorem copies_cons_of_ne (h : r.line ≠ line) : copies line (r :: rows) = copies line rows :=
  List.filter_cons_of_neg (by simpa using h)

/-- A row above a line has none of its copies behind it. -/
theorem copies_eq_nil (h : Sorted (r :: rows)) (hlt : compareLines line r.line = .lt) :
    copies line (r :: rows) = [] := by
  refine List.filter_eq_nil_iff.2 fun x hx => ?_
  have hbelow : compareLines line x.line = .lt := by
    rcases List.mem_cons.1 hx with rfl | hx
    · exact hlt
    · exact Std.TransCmp.lt_of_lt_of_isLE hlt ((List.pairwise_cons.1 h).1 x hx)
  intro heq
  rw [of_decide_eq_true heq, compareLines_self] at hbelow
  cases hbelow

/-- The first line is the smallest. -/
theorem Sorted.isLE_line (h : Sorted (r :: rows)) {x : Row} (hx : x ∈ r :: rows) :
    (compareLines r.line x.line).isLE := by
  rcases List.mem_cons.1 hx with rfl | hx
  · rw [compareLines_self]
    rfl
  · exact (List.pairwise_cons.1 h).1 x hx

/-- A line with a copy here has one there. -/
theorem exists_line_of_copies (h : ∀ line, copies line rows = copies line rows') (hr : r ∈ rows) :
    ∃ r' ∈ rows', r'.line = r.line := by
  have hcopy : r ∈ copies r.line rows' := h r.line ▸ mem_copies.2 ⟨hr, rfl⟩
  exact ⟨r, mem_copies.1 hcopy⟩

/-- An ascending list is determined by its copies of every line. -/
theorem Sorted.eq_of_copies (hs : Sorted rows) (hs' : Sorted rows')
    (h : ∀ line, copies line rows = copies line rows') : rows = rows' := by
  induction rows generalizing rows' with
  | nil =>
    refine (List.eq_nil_iff_forall_not_mem.2 fun r hr => ?_).symm
    obtain ⟨r', hr', -⟩ := exists_line_of_copies (fun line => (h line).symm) hr
    exact List.not_mem_nil hr'
  | cons r rows ih =>
    obtain ⟨x, hx, hxline⟩ := exists_line_of_copies h (List.mem_cons_self ..)
    cases rows' with
    | nil => exact absurd hx List.not_mem_nil
    | cons r' rows' =>
      obtain ⟨y, hy, hyline⟩ :=
        exists_line_of_copies (fun line => (h line).symm) (List.mem_cons_self ..)
      -- each of the two first lines occurs on the other side, so neither is below the other
      have hle := hs.isLE_line hy
      have hge := hs'.isLE_line hx
      rw [hyline] at hle
      rw [hxline] at hge
      have hline : r.line = r'.line :=
        Std.LawfulEqCmp.eq_of_compare (Std.OrientedCmp.isLE_antisymm hle hge)
      have hhead := h r.line
      rw [copies_cons_self, hline, copies_cons_self, ← hline] at hhead
      obtain ⟨rfl, hcopies⟩ := List.cons.inj hhead
      refine congrArg (r :: ·) (ih (List.pairwise_cons.1 hs).2 (List.pairwise_cons.1 hs').2 ?_)
      intro line
      by_cases hl : r.line = line
      · exact hl ▸ hcopies
      · have htail := h line
        rwa [copies_cons_of_ne hl, copies_cons_of_ne hl] at htail

/-- Sorting keeps the copies of a line as they are. -/
theorem copies_sort (line : List Term) (rows : List Row) :
    copies line (Ordered.sort Row.compare rows) = copies line rows := by
  have hsame : (copies line rows).Pairwise fun a b => (Row.compare a b).isLE := by
    refine List.pairwise_of_forall_mem_list fun a ha b hb => ?_
    show (compareLines a.line b.line).isLE
    rw [(mem_copies.1 ha).2, (mem_copies.1 hb).2, compareLines_self]
    rfl
  have hsub : (copies line rows).Sublist (Ordered.sort Row.compare rows) :=
    List.sublist_mergeSort (fun _ _ _ => Std.TransCmp.isLE_trans) Ordered.isLE_total hsame
      List.filter_sublist
  have hkept : (copies line rows).Sublist (copies line (Ordered.sort Row.compare rows)) := by
    have hfilter := hsub.filter fun r => decide (r.line = line)
    simp only [copies, List.filter_filter, Bool.and_self] at hfilter
    exact hfilter
  exact (hkept.eq_of_length (((Ordered.perm_sort rows).filter _).length_eq).symm).symm

end Row

/-! ## Merges -/

namespace RowFeed

open Row (Sorted copies copies_cons_self copies_cons_of_ne copies_eq_nil)

variable {line : List Term}

/-- A merge has the left copies of a line first and then the right ones. -/
theorem copies_mergeLists : ∀ {l : List Row}, Sorted l → ∀ r : List Row,
    copies line (mergeLists l r) = copies line l ++ copies line r := by
  intro l hl r
  induction l generalizing r with
  | nil =>
    rw [mergeLists, List.nil_merge]
    rfl
  | cons a l ihl =>
    induction r with
    | nil =>
      rw [mergeLists, List.merge_right]
      exact (List.append_nil _).symm
    | cons b r ihr =>
      rw [mergeLists, List.cons_merge_cons]
      split
      · have hrest := ihl (List.pairwise_cons.1 hl).2 (b :: r)
        by_cases ha : a.line = line
        · subst ha
          rw [copies_cons_self, copies_cons_self, List.cons_append]
          exact congrArg (a :: ·) hrest
        · rw [copies_cons_of_ne ha, copies_cons_of_ne ha]
          exact hrest
      · next hgt =>
        by_cases hb : b.line = line
        · subst hb
          -- a right copy goes first only if no left copy is left
          have hlt : Row.compareLines b.line a.line = .lt := Std.OrientedCmp.lt_of_not_isLE hgt
          rw [copies_eq_nil hl hlt, List.nil_append] at ihr ⊢
          rw [copies_cons_self, copies_cons_self]
          exact congrArg (b :: ·) ihr
        · rw [copies_cons_of_ne hb, copies_cons_of_ne hb]
          exact ihr

variable {ls : List (List Row)}

/-- Many lists keep their copies of a line, list after list. -/
theorem copies_mergeAllLists (h : ∀ l ∈ ls, Sorted l) :
    copies line (mergeAllLists ls) = copies line ls.flatten := by
  induction ls with
  | nil => rfl
  | cons l ls ih =>
    obtain ⟨hl, hls⟩ := List.forall_mem_cons.1 h
    rw [List.flatten_cons, Row.copies_append, ← ih hls]
    exact copies_mergeLists hl (mergeAllLists ls)

theorem interleaves_mergeAllLists (ls : List (List Row)) : Interleaves ls (mergeAllLists ls) := by
  induction ls with
  | nil => exact .usedUp nofun
  | cons l ls ih => exact ih.merge _ l

/-- Merging ascending lists is sorting their rows, with equal lines in the order of the lists. -/
theorem mergeAllLists_eq_sort (h : ∀ l ∈ ls, Sorted l) :
    mergeAllLists ls = Ordered.sort Row.compare ls.flatten :=
  (sorted_mergeAllLists h).eq_of_copies (Row.sorted_sort ls.flatten) fun line => by
    rw [copies_mergeAllLists h, Row.copies_sort]

end RowFeed

end GraphShapes
