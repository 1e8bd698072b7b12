import GraphShapes.Proofs.RowFeed.Items
import GraphShapes.Proofs.RowFeed.Position

/-!
# Joins that come to an end

A join breaks off only where one of its inputs does, in whatever order their rows come
(`breaks_equalsJoin`, `breaks_innerJoin`, `breaks_antiJoin`, `breaks_countValues`). Where the rows
are in order, it is known what a join delivers; here it is only known that it ends.
-/

namespace GraphShapes

namespace Feed

variable {ε α : Type}

theorem breaks_ofList (l : List α) : (ofList l : Feed ε α).breaks = false := by
  induction l with
  | nil => rfl
  | cons a l ih => exact ih

/-- A feed that does not break off is the feed of a list. -/
theorem exists_ofList : ∀ {feed : Feed ε α}, feed.breaks = false → ∃ l, feed = ofList l
  | done, _ => ⟨[], rfl⟩
  | next a rest, h => by
    have hrest : rest.breaks = false := h
    obtain ⟨l, rfl⟩ := exists_ofList hrest
    exact ⟨a :: l, rfl⟩

theorem breaks_prepend (l : List α) (feed : Feed ε α) : (prepend l feed).breaks = feed.breaks := by
  induction l with
  | nil => rfl
  | cons a l ih => exact ih

end Feed

namespace RowFeed

variable {width : Option Nat} {l r : RowFeed}

variable (width) in
/-- Taking a group from rows that do not break off leaves rows that do not break off. -/
theorem exists_takeGroup (key : List Term) : ∀ {feed : RowFeed}, feed.breaks = false →
    ∃ group rest, takeGroup width key feed = .ok (group, rest) ∧ rest.breaks = false
  | .done, _ => ⟨[], .done, rfl, rfl⟩
  | .next row tail, h => by
    have htail : tail.breaks = false := h
    rw [takeGroup]
    split
    · obtain ⟨group, rest, htake, hrest⟩ := exists_takeGroup key htail
      exact ⟨row :: group, rest, by rw [htake]; rfl, hrest⟩
    · exact ⟨[], .next row tail, rfl, h⟩

/-- A group that is taken leaves a feed that does not break off. -/
theorem breaks_of_takeGroup {key : List Term} {feed rest : RowFeed} {group : List Row}
    (h : feed.breaks = false) (htake : takeGroup width key feed = .ok (group, rest)) :
    rest.breaks = false := by
  obtain ⟨group', rest', htake', hrest⟩ := exists_takeGroup width key h
  rw [htake'] at htake
  obtain ⟨-, rfl⟩ := Prod.mk.inj (Except.ok.inj htake)
  exact hrest

theorem takeGroup_ne_error {key : List Term} {feed : RowFeed} {e : OpError}
    (h : feed.breaks = false) : takeGroup width key feed ≠ .error e := by
  obtain ⟨group, rest, htake, -⟩ := exists_takeGroup width key h
  rw [htake]
  nofun

/-- An equality join of inputs that come to an end comes to an end. -/
theorem breaks_equalsJoin (hl : l.breaks = false) (hr : r.breaks = false) :
    (equalsJoin width l r).breaks = false := by
  fun_induction equalsJoin width l r with
  | case1 => exact hl
  | case2 => exact hr
  | case3 => exact hr
  | case4 => rfl
  | case5 => rfl
  | case6 l ls r rs key _ ih => exact ih hl hr
  | case7 l ls r rs key _ ih => exact ih hl hr
  | case8 l ls r rs key _ e htake => exact absurd htake (takeGroup_ne_error hl)
  | case9 l ls r rs key _ lefts ls' htake e htake' =>
    exact absurd htake' (takeGroup_ne_error hr)
  | case10 l ls r rs key _ lefts ls' htake rights rs' htake' ih =>
    have hls : ls.breaks = false := hl
    have hrs : rs.breaks = false := hr
    rw [Feed.breaks_prepend]
    exact ih (breaks_of_takeGroup hls htake) (breaks_of_takeGroup hrs htake')

/-- An intersection of inputs that come to an end comes to an end. -/
theorem breaks_innerJoin (hl : l.breaks = false) (hr : r.breaks = false) :
    (innerJoin l r).breaks = false := by
  fun_induction innerJoin l r with
  | case1 => exact hl
  | case2 => exact hr
  | case3 => exact hr
  | case4 => rfl
  | case5 => rfl
  | case6 l ls r rs _ ih => exact ih hl hr
  | case7 l ls r rs _ ih => exact ih hl hr
  | case8 l ls r rs _ e htake => exact absurd htake (takeGroup_ne_error hl)
  | case9 l ls r rs _ lefts ls' htake e htake' => exact absurd htake' (takeGroup_ne_error hr)
  | case10 l ls r rs _ lefts ls' htake rights rs' htake' ih =>
    have hls : ls.breaks = false := hl
    have hrs : rs.breaks = false := hr
    exact ih (breaks_of_takeGroup hls htake) (breaks_of_takeGroup hrs htake')

/-- Skipping what is below a target does not reach a failure that is not there. -/
theorem breaks_skipBelow (t : Term) : ∀ {feed : RowFeed}, feed.breaks = false →
    (skipBelow t feed).breaks = false
  | .done, _ => rfl
  | .next row rest, h => by
    have hrest : rest.breaks = false := h
    rw [skipBelow]
    split
    · exact breaks_skipBelow t hrest
    · exact h

/-- A difference of inputs that come to an end comes to an end. -/
theorem breaks_antiJoin : ∀ {l r : RowFeed}, l.breaks = false → r.breaks = false →
    (antiJoin l r).breaks = false
  | .done, _, _, _ => by rw [antiJoin]; rfl
  | .next a ls, r, hl, hr => by
    have hls : ls.breaks = false := hl
    have hskip : (skipBelow a.target r).breaks = false := breaks_skipBelow a.target hr
    rw [antiJoin]
    split
    · next h => rw [h] at hskip; cases hskip
    · exact breaks_antiJoin hls rfl
    · next h =>
      rw [h] at hskip
      split
      · exact breaks_antiJoin hls hskip
      · exact breaks_antiJoin hls hskip

/-- The values of a target can be gathered from rows that do not break off, and what is left does
not either. -/
theorem exists_gather (t : Term) : ∀ {feed : RowFeed}, feed.breaks = false →
    ∃ values rest, gather t feed = .ok (values, rest) ∧ rest.breaks = false
  | .done, _ => ⟨[], .done, rfl, rfl⟩
  | .next row tail, h => by
    have htail : tail.breaks = false := h
    obtain ⟨values, rest, hgather, hrest⟩ := exists_gather t htail
    rw [gather]
    split
    · exact ⟨values, rest, hgather, hrest⟩
    · split
      · exact ⟨_, rest, by rw [hgather]; rfl, hrest⟩
      · exact ⟨[], .next row tail, rfl, h⟩

/-- Judging the values of targets comes to an end if both inputs do. -/
theorem breaks_countValues (test : List Term → Bool) : ∀ {targets values : RowFeed},
    targets.breaks = false → values.breaks = false →
      (countValues test targets values).breaks = false
  | .done, _, _, _ => by rw [countValues]; rfl
  | .next t ts, values, ht, hv => by
    obtain ⟨vs, values', hgather, hv'⟩ := exists_gather t.target hv
    have hts : ts.breaks = false := ht
    rw [countValues, hgather]
    simp only
    split
    · exact breaks_countValues test hts hv'
    · exact breaks_countValues test hts hv'

end RowFeed

end GraphShapes
