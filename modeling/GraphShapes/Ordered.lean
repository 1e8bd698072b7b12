/-!
# Sets as ascending lists

A finite set over a totally ordered type is kept as the list of its members in strictly
ascending order. The comparison is a parameter, so that one type can be kept in two orders.

Every operation keeps the list ascending, and says by membership what it does to the set
(`mem_insert`, `mem_erase`, `contains_iff_mem`). An ascending list is determined by its members
(`Ascending.eq_of_mem_iff`), so two sets are equal as soon as they have the same members.
-/

namespace GraphShapes.Ordered

variable {α : Type}

/-- The list with the element at its place; unchanged if it is there already. -/
def insert (cmp : α → α → Ordering) (a : α) : List α → List α
  | [] => [a]
  | b :: l =>
    match cmp a b with
    | .lt => a :: b :: l
    | .eq => b :: l
    | .gt => b :: insert cmp a l

/-- The list without the element. -/
def erase (cmp : α → α → Ordering) (a : α) : List α → List α
  | [] => []
  | b :: l =>
    match cmp a b with
    | .lt => b :: l
    | .eq => l
    | .gt => b :: erase cmp a l

/-- Is the element in the list? The search stops at the first larger element. -/
def contains (cmp : α → α → Ordering) (a : α) : List α → Bool
  | [] => false
  | b :: l =>
    match cmp a b with
    | .lt => false
    | .eq => true
    | .gt => contains cmp a l

/-- The list with every element of another list at its place. -/
def insertAll (cmp : α → α → Ordering) (set : List α) (items : List α) : List α :=
  items.foldl (fun acc a => insert cmp a acc) set

/-- The distinct elements of a list in ascending order. -/
def ofList (cmp : α → α → Ordering) (items : List α) : List α := insertAll cmp [] items

/-- The list in ascending order; equal elements keep their order of arrival. -/
def sort (cmp : α → α → Ordering) (items : List α) : List α :=
  items.mergeSort fun a b => (cmp a b).isLE

/-- The list is in strictly ascending order. -/
def Ascending (cmp : α → α → Ordering) (l : List α) : Prop :=
  l.Pairwise fun a b => cmp a b = .lt

theorem eq_lt_of_isLE {o : Ordering} (h : o.isLE) (hne : o ≠ .eq) : o = .lt := by
  cases o with
  | lt => rfl
  | eq => exact absurd rfl hne
  | gt => cases h

section Lemmas

variable {cmp : α → α → Ordering}

theorem ascending_nil : Ascending cmp [] := .nil

/-- Erasing takes members away and leaves the others in order. -/
theorem erase_sublist {a : α} {l : List α} : (erase cmp a l).Sublist l := by
  induction l with
  | nil => exact List.Sublist.refl _
  | cons b l ih =>
    unfold erase
    split
    · exact List.Sublist.refl _
    · exact List.sublist_cons_self b l
    · exact ih.cons_cons b

/-- Erasing keeps a list ascending. -/
theorem ascending_erase {a : α} {l : List α} (h : Ascending cmp l) :
    Ascending cmp (erase cmp a l) :=
  h.sublist erase_sublist

/-- Sorting neither adds nor drops anything. -/
theorem perm_sort (items : List α) : (sort cmp items).Perm items := List.mergeSort_perm ..

variable [Std.LawfulEqCmp cmp]

/-- Inserting adds just that member. -/
theorem mem_insert {a x : α} {l : List α} : x ∈ insert cmp a l ↔ x = a ∨ x ∈ l := by
  induction l with
  | nil => simp [insert]
  | cons b l ih =>
    unfold insert
    split
    · simp
    · next h =>
      obtain rfl := Std.LawfulEqCmp.eq_of_compare h
      simp
    · simp only [List.mem_cons, ih, or_left_comm]

/-- Inserting several adds just those. -/
theorem mem_insertAll {x : α} {items : List α} :
    ∀ {set : List α}, x ∈ insertAll cmp set items ↔ x ∈ set ∨ x ∈ items := by
  induction items with
  | nil => simp [insertAll]
  | cons a items ih =>
    intro set
    rw [insertAll, List.foldl_cons, ← insertAll, ih, mem_insert, List.mem_cons,
      or_comm (a := x = a), or_assoc]

/-- The set of a list has the members of the list. -/
theorem mem_ofList {x : α} {items : List α} : x ∈ ofList cmp items ↔ x ∈ items := by
  simp [ofList, mem_insertAll]

variable (cmp) in
theorem ne_of_compare_ne_eq {a b : α} (h : cmp a b ≠ .eq) : a ≠ b :=
  Std.ReflCmp.ne_of_cmp_ne_eq h

/-- The head of an ascending list does not occur behind itself. -/
theorem Ascending.ne_of_mem_tail {a x : α} {l : List α} (h : Ascending cmp (a :: l))
    (hx : x ∈ l) : x ≠ a := by
  refine (ne_of_compare_ne_eq cmp ?_).symm
  rw [(List.pairwise_cons.1 h).1 x hx]
  decide

variable [Std.TransCmp cmp]

/-- Inserting keeps a list ascending. -/
theorem ascending_insert {a : α} {l : List α} (h : Ascending cmp l) :
    Ascending cmp (insert cmp a l) := by
  induction l with
  | nil => exact List.pairwise_singleton _ a
  | cons b l ih =>
    obtain ⟨hb, hl⟩ := List.pairwise_cons.1 h
    unfold insert
    split
    · next hab =>
      refine List.pairwise_cons.2 ⟨fun x hx => ?_, h⟩
      rcases List.mem_cons.1 hx with rfl | hx
      · exact hab
      · exact Std.TransCmp.lt_trans hab (hb x hx)
    · exact h
    · next hab =>
      refine List.pairwise_cons.2 ⟨fun x hx => ?_, ih hl⟩
      rcases mem_insert.1 hx with rfl | hx
      · exact Std.OrientedCmp.lt_of_gt hab
      · exact hb x hx

/-- So does inserting several. -/
theorem ascending_insertAll {items : List α} :
    ∀ {set : List α}, Ascending cmp set → Ascending cmp (insertAll cmp set items) := by
  induction items with
  | nil => exact id
  | cons a items ih => exact fun h => ih (ascending_insert h)

/-- An element below the head of an ascending list is not in it. -/
theorem Ascending.not_mem_of_lt_head {a b : α} {l : List α} (h : Ascending cmp (b :: l))
    (hab : cmp a b = .lt) : a ∉ b :: l := by
  intro ha
  have hlt : cmp a a = .lt := by
    rcases List.mem_cons.1 ha with rfl | ha
    · exact hab
    · exact Std.TransCmp.lt_trans hab ((List.pairwise_cons.1 h).1 a ha)
  exact ne_of_compare_ne_eq cmp (by rw [hlt]; decide) rfl

/-- Erasing takes just that member away. -/
theorem mem_erase {a x : α} {l : List α} (h : Ascending cmp l) :
    x ∈ erase cmp a l ↔ x ≠ a ∧ x ∈ l := by
  induction l with
  | nil => simp [erase]
  | cons b l ih =>
    unfold erase
    split
    · next hab =>
      -- the search stops, and rightly so
      have ha := h.not_mem_of_lt_head hab
      exact ⟨fun hx => ⟨fun e => ha (e ▸ hx), hx⟩, And.right⟩
    · next hab =>
      obtain rfl := Std.LawfulEqCmp.eq_of_compare hab
      rw [List.mem_cons]
      exact ⟨fun hx => ⟨h.ne_of_mem_tail hx, .inr hx⟩, fun hx => hx.2.resolve_left hx.1⟩
    · next hab =>
      have hne : b ≠ a := (ne_of_compare_ne_eq cmp (by rw [hab]; decide)).symm
      rw [List.mem_cons, List.mem_cons, ih (List.pairwise_cons.1 h).2]
      constructor
      · intro hor
        rcases hor with rfl | ⟨hx, hm⟩
        · exact ⟨hne, .inl rfl⟩
        · exact ⟨hx, .inr hm⟩
      · intro hor
        rcases hor with ⟨hx, rfl | hm⟩
        · exact .inl rfl
        · exact .inr ⟨hx, hm⟩

/-- The search that stops early finds every element of an ascending list. -/
theorem contains_iff_mem {a : α} {l : List α} (h : Ascending cmp l) :
    contains cmp a l = true ↔ a ∈ l := by
  induction l with
  | nil => simp [contains]
  | cons b l ih =>
    unfold contains
    split
    · next hab => simp [h.not_mem_of_lt_head hab]
    · next hab =>
      obtain rfl := Std.LawfulEqCmp.eq_of_compare hab
      simp
    · next hab =>
      have hne : a ≠ b := ne_of_compare_ne_eq cmp (by rw [hab]; decide)
      rw [ih (List.pairwise_cons.1 h).2, List.mem_cons, or_iff_right hne]

/-- Two ascending lists with the same members are the same list. -/
theorem Ascending.eq_of_mem_iff {l l' : List α} (h : Ascending cmp l) (h' : Ascending cmp l')
    (hm : ∀ x, x ∈ l ↔ x ∈ l') : l = l' := by
  induction l generalizing l' with
  | nil =>
    cases l' with
    | nil => rfl
    | cons b l' => exact absurd ((hm b).2 (List.mem_cons_self ..)) List.not_mem_nil
  | cons a l ih =>
    cases l' with
    | nil => exact absurd ((hm a).1 (List.mem_cons_self ..)) List.not_mem_nil
    | cons b l' =>
      -- the heads are the least elements of the same set
      have hab : a = b := by
        cases hc : cmp a b with
        | eq => exact Std.LawfulEqCmp.eq_of_compare hc
        | lt => exact absurd ((hm a).1 (List.mem_cons_self ..)) (h'.not_mem_of_lt_head hc)
        | gt =>
          exact absurd ((hm b).2 (List.mem_cons_self ..))
            (h.not_mem_of_lt_head (Std.OrientedCmp.lt_of_gt hc))
      subst hab
      rw [ih (List.pairwise_cons.1 h).2 (List.pairwise_cons.1 h').2 fun x => ?_]
      have hx := hm x
      rw [List.mem_cons, List.mem_cons] at hx
      exact ⟨fun m => (hx.1 (.inr m)).resolve_left (h.ne_of_mem_tail m),
        fun m => (hx.2 (.inr m)).resolve_left (h'.ne_of_mem_tail m)⟩

omit [Std.LawfulEqCmp cmp]

/-- Of two members one is at most the other. -/
theorem isLE_total (a b : α) : (cmp a b).isLE || (cmp b a).isLE := by
  rw [@Std.OrientedCmp.eq_swap _ cmp _ b a]
  cases cmp a b <;> rfl

/-- A sorted list is in order. -/
theorem pairwise_sort (items : List α) :
    (sort cmp items).Pairwise fun a b => (cmp a b).isLE :=
  List.pairwise_mergeSort (fun _ _ _ => Std.TransCmp.isLE_trans) isLE_total items

end Lemmas

end GraphShapes.Ordered
