import GraphShapes.Proofs.RowFeed.Items

/-!
# Which joins keep rows in order

The joins deliver lines of their left side, whole or cut to the target, and keep the order of that
side, whatever comes on the other. The exception is the equality join by target
(`sorted_equalPairs_iff`): it appends columns to lines of which one may be the beginning of
another, and then the columns that are appended decide about the order.
-/

namespace GraphShapes

namespace RowFeed

open Row (Sorted compareLines)

variable {lefts rights : List Row}

/-! ## Joins of which the left side alone decides -/

theorem sorted_innerJoin {l : RowFeed} (h : Sorted l.items) (r : RowFeed) :
    Sorted (innerJoin l r).items :=
  Row.sorted_iff.2 ((Row.sorted_targets h).sublist (sublist_lines_innerJoin l r))

theorem sorted_antiJoin {l : RowFeed} (h : Sorted l.items) (r : RowFeed) :
    Sorted (antiJoin l r).items :=
  h.sublist (sublist_antiJoin l r)

theorem sorted_countValues {targets : RowFeed} (h : Sorted targets.items)
    (test : List Term → Bool) (values : RowFeed) : Sorted (countValues test targets values).items :=
  (Row.sorted_trim h 1).sublist (sublist_countValues test targets values)

/-! ## Equality joins -/

/-- Where all columns are compared, nothing is appended. -/
theorem sorted_equalPairs (h : Sorted lefts) : Sorted (equalPairs none lefts rights) := by
  have hline : ∀ {l x : Row}, x ∈ (partners none l rights).map (combine l.line.length l) →
      x.line = l.line := by
    intro l x hx
    obtain ⟨r, hr, rfl⟩ := List.mem_map.1 hx
    exact line_combine (of_decide_eq_true (List.mem_filter.1 hr).2)
  refine List.pairwise_flatMap.2
    ⟨fun l _ => ?_, List.Pairwise.imp (fun {a b} hab x hx y hy => ?_) h⟩
  · refine List.pairwise_of_forall_mem_list fun x hx y hy => ?_
    show (compareLines x.line y.line).isLE
    rw [hline hx, hline hy, Row.compareLines_self]
    rfl
  · show (compareLines x.line y.line).isLE
    rw [hline hx, hline hy]
    exact hab

/-- The later of two left lines may begin with the earlier one. Then what is appended to the
earlier line must not exceed what follows in the later one. -/
def StaysBefore (rights : List Row) (a b : Row) : Prop :=
  ∀ more, b.line = a.line ++ more → ∀ r ∈ rights, r.target = a.target →
    ∀ r' ∈ rights, r'.target = b.target → (compareLines r.others (more ++ r'.others)).isLE

theorem line_combine_one (l r : Row) : (combine 1 l r).line = l.line ++ r.others := rfl

/-- The rows of one left row are in order. -/
theorem sorted_pairs (h : Sorted rights) (l : Row) :
    Sorted ((partners (some 1) l rights).map (combine 1 l)) := by
  refine List.Pairwise.map _ (fun a b hab => hab) ?_
  refine List.Pairwise.imp_of_mem (fun {a b} ha hb hab => ?_)
    (List.Pairwise.filter (fun r => decide (r.keyOf (some 1) = l.keyOf (some 1))) h)
  have hab : (compareLines (a.target :: a.others) (b.target :: b.others)).isLE := hab
  show (compareLines (combine 1 l a).line (combine 1 l b).line).isLE
  rw [(mem_partners.1 ha).2, (mem_partners.1 hb).2, Row.compareLines_cons, Term.compare_self] at hab
  rw [line_combine_one, line_combine_one, Row.compareLines_append_left]
  exact hab

/-- The rows of a left row come before those of a later left row if only `StaysBefore` holds. -/
theorem pairs_le_iff {a b : Row} (hab : (compareLines a.line b.line).isLE) :
    (∀ x ∈ (partners (some 1) a rights).map (combine 1 a),
      ∀ y ∈ (partners (some 1) b rights).map (combine 1 b), (compareLines x.line y.line).isLE) ↔
      StaysBefore rights a b := by
  constructor
  · intro h more hmore r hr ht r' hr' ht'
    have hle := h _ (List.mem_map_of_mem (mem_partners.2 ⟨hr, ht⟩)) _
      (List.mem_map_of_mem (mem_partners.2 ⟨hr', ht'⟩))
    rw [line_combine_one, line_combine_one, hmore, List.append_assoc,
      Row.compareLines_append_left] at hle
    exact hle
  · intro h x hx y hy
    obtain ⟨r, hr, rfl⟩ := List.mem_map.1 hx
    obtain ⟨r', hr', rfl⟩ := List.mem_map.1 hy
    obtain ⟨hr, ht⟩ := mem_partners.1 hr
    obtain ⟨hr', ht'⟩ := mem_partners.1 hr'
    rw [line_combine_one, line_combine_one]
    -- unless one line begins the other, the lines decide before the values do
    by_cases hp : a.line <+: b.line
    · obtain ⟨more, hmore⟩ := hp
      rw [← hmore, List.append_assoc, Row.compareLines_append_left]
      exact h more hmore.symm r hr ht r' hr' ht'
    · rw [Row.compareLines_append_of_not_prefix hab hp]
      rfl

/-- The equality join by target keeps the order exactly if `StaysBefore` holds of every two left
rows. -/
theorem sorted_equalPairs_iff (hl : Sorted lefts) (hr : Sorted rights) :
    Sorted (equalPairs (some 1) lefts rights) ↔ lefts.Pairwise (StaysBefore rights) := by
  have hflat : Sorted (equalPairs (some 1) lefts rights) ↔ lefts.Pairwise fun a b =>
      ∀ x ∈ (partners (some 1) a rights).map (combine 1 a),
        ∀ y ∈ (partners (some 1) b rights).map (combine 1 b),
          (compareLines x.line y.line).isLE := by
    refine List.pairwise_flatMap.trans (and_iff_right fun l _ => sorted_pairs hr l)
  rw [hflat]
  constructor
  · exact List.Pairwise.imp₂ (fun a b hab hpairs => (pairs_le_iff hab).1 hpairs) hl
  · exact List.Pairwise.imp₂ (fun a b hab hbefore => (pairs_le_iff hab).2 hbefore) hl

end RowFeed

end GraphShapes
