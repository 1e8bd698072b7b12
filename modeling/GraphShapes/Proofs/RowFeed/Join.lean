import GraphShapes.Proofs.RowFeed.Lists
import GraphShapes.RowFeed.Join
import Mathlib.Data.List.Basic

/-!
# The joins of ascending rows

The joins walk over two feeds side by side. On the feeds of lists that ascend by the compared key
they come to what looking up every row of the left list in the whole right list comes to:
`equalsJoin_ofList`, `innerJoin_ofList`, `antiJoin_ofList` and `countValues_ofList`.

What makes that true is the same in all of them (`Row.SortedOn`). Once a row of one side is passed
over, its key is below every key that is still to come on the other side; and the rows of one key
stand next to each other, so the group that is read at once is all of them (`takeGroup_ofList`).
-/

namespace GraphShapes

namespace Row

variable {width : Option Nat} {row : Row} {rows : List Row}

theorem SortedOn.tail (h : SortedOn width (row :: rows)) : SortedOn width rows :=
  (List.pairwise_cons.1 h).2

/-- The first row has the least key. -/
theorem SortedOn.isLE_of_mem (h : SortedOn width (row :: rows)) {r : Row} (hr : r ∈ row :: rows) :
    (compareLines (row.keyOf width) (r.keyOf width)).isLE := by
  rcases List.mem_cons.1 hr with rfl | hr
  · rw [compareLines_self]
    rfl
  · exact (List.pairwise_cons.1 h).1 r hr

/-- A key below that of the first row is below the key of every row. -/
theorem SortedOn.lt_of_mem (h : SortedOn width (row :: rows)) {key : List Term}
    (hlt : compareLines key (row.keyOf width) = .lt) {r : Row} (hr : r ∈ row :: rows) :
    compareLines key (r.keyOf width) = .lt :=
  Std.TransCmp.lt_of_lt_of_isLE hlt (h.isLE_of_mem hr)

/-- What is carried along is not part of the line. -/
theorem line_foldl_absorb (rs : List Row) : ∀ r : Row, (rs.foldl absorb r).line = r.line := by
  induction rs with
  | nil => exact fun _ => rfl
  | cons r' rs ih => exact fun r => ih (r.absorb r')

/-- A key that is below another is not that key. -/
theorem ne_of_compareLines_lt {a b : List Term} (h : compareLines a b = .lt) : b ≠ a := by
  intro heq
  subst heq
  rw [compareLines_self] at h
  cases h

end Row

namespace RowFeed

open Row (compareLines SortedOn)

variable {width : Option Nat}

/-- Reading a group from ascending rows behind one of its rows: the group is all rows of that key,
and the keys of the others are larger. -/
theorem takeGroup_ofList {row : Row} : ∀ {rows : List Row}, SortedOn width (row :: rows) →
    ∃ group rest, takeGroup width (row.keyOf width) (Feed.ofList rows) =
        .ok (group, Feed.ofList rest) ∧
      rows = group ++ rest ∧ (∀ r ∈ group, r.keyOf width = row.keyOf width) ∧
      ∀ r ∈ rest, compareLines (row.keyOf width) (r.keyOf width) = .lt
  | [], _ => ⟨[], [], rfl, rfl, by simp, by simp⟩
  | r :: rows, h => by
    rw [Feed.ofList, takeGroup]
    by_cases hk : r.keyOf width = row.keyOf width
    · rw [if_pos hk]
      have htail : SortedOn width (row :: rows) :=
        h.sublist (List.cons_sublist_cons.2 (List.sublist_cons_self r rows))
      obtain ⟨group, rest, htake, rfl, hgroup, hrest⟩ := takeGroup_ofList htail
      refine ⟨r :: group, rest, by rw [htake]; rfl, rfl, ?_, hrest⟩
      exact List.forall_mem_cons.2 ⟨hk, hgroup⟩
    · rw [if_neg hk]
      refine ⟨[], r :: rows, rfl, rfl, by simp, fun x hx => h.tail.lt_of_mem ?_ hx⟩
      have hle := h.isLE_of_mem (List.mem_cons_of_mem _ (List.mem_cons_self ..))
      exact Ordered.eq_lt_of_isLE hle fun he => hk (Std.LawfulEqCmp.eq_of_compare he).symm

/-! ## Equality joins -/

/-- Two rows of one line combine to a row of that line. -/
theorem line_combine {l r : Row} (h : r.line = l.line) :
    (combine l.line.length l r).line = l.line := by
  show l.target :: (l.others ++ r.line.drop l.line.length) = l.line
  rw [h, List.drop_length, List.append_nil]
  rfl

/-- The rows with the key of a given row. -/
def partners (width : Option Nat) (l : Row) (rights : List Row) : List Row :=
  rights.filter fun r => r.keyOf width = l.keyOf width

/-- Every left row with every right row of its key. -/
def equalPairs (width : Option Nat) (lefts rights : List Row) : List Row :=
  lefts.flatMap fun l => (partners width l rights).map (combine (l.keyOf width).length l)

/-- Compared by target, the partners of a row are the rows with its target. -/
theorem mem_partners {l r : Row} {rights : List Row} :
    r ∈ partners (some 1) l rights ↔ r ∈ rights ∧ r.target = l.target := by
  rw [partners, List.mem_filter, decide_eq_true_eq, Row.keyOf_eq_iff]

/-- A row below all others has no partners. -/
theorem partners_eq_nil {l : Row} {rights : List Row}
    (h : ∀ r ∈ rights, compareLines (l.keyOf width) (r.keyOf width) = .lt) :
    partners width l rights = [] :=
  List.filter_eq_nil_iff.2 fun r hr => by simpa using Row.ne_of_compareLines_lt (h r hr)

/-- Rows below every left key have no partner on the left. -/
theorem partners_append {l : Row} {group rest : List Row}
    (h : ∀ r ∈ group, r.keyOf width ≠ l.keyOf width) :
    partners width l (group ++ rest) = partners width l rest := by
  rw [partners, List.filter_append, List.filter_eq_nil_iff.2 fun r hr => by simpa using h r hr]
  rfl

/-- A group below all rows on the left can be passed over. -/
theorem equalPairs_append_right {lefts group rest : List Row}
    (h : ∀ l ∈ lefts, ∀ r ∈ group, compareLines (r.keyOf width) (l.keyOf width) = .lt) :
    equalPairs width lefts (group ++ rest) = equalPairs width lefts rest := by
  refine List.flatMap_congr fun l hl => ?_
  rw [partners_append fun r hr => (Row.ne_of_compareLines_lt (h l hl r hr)).symm]

/-- Left rows below every right key have no partner on the right. -/
theorem equalPairs_cons_of_lt {l : Row} {lefts rights : List Row}
    (h : ∀ r ∈ rights, compareLines (l.keyOf width) (r.keyOf width) = .lt) :
    equalPairs width (l :: lefts) rights = equalPairs width lefts rights := by
  unfold equalPairs
  rw [List.flatMap_cons, partners_eq_nil h]
  rfl

/-- Two groups of one key, and everything behind them. -/
theorem equalPairs_groups {key : List Term} {lefts lefts' rights rights' : List Row}
    (hl : ∀ l ∈ lefts, l.keyOf width = key) (hr : ∀ r ∈ rights, r.keyOf width = key)
    (hl' : ∀ l ∈ lefts', compareLines key (l.keyOf width) = .lt)
    (hr' : ∀ r ∈ rights', compareLines key (r.keyOf width) = .lt) :
    equalPairs width (lefts ++ lefts') (rights ++ rights') =
      pairs key.length lefts rights ++ equalPairs width lefts' rights' := by
  have hbehind : equalPairs width lefts' (rights ++ rights') = equalPairs width lefts' rights' :=
    equalPairs_append_right fun l hl r hrm => by rw [hr r hrm]; exact hl' l hl
  have hgroup : equalPairs width lefts (rights ++ rights') = pairs key.length lefts rights := by
    refine List.flatMap_congr fun l hlm => ?_
    rw [partners, List.filter_append, hl l hlm,
      List.filter_eq_self.2 fun r hrm => by simpa using hr r hrm,
      List.filter_eq_nil_iff.2 fun r hrm => by simpa using Row.ne_of_compareLines_lt (hr' r hrm),
      List.append_nil]
  rw [← hgroup, ← hbehind]
  exact List.flatMap_append

/-- What the equality join does with two rows in front. -/
theorem equalsJoin_next (width : Option Nat) (l r : Row) (ls rs : RowFeed) :
    equalsJoin width (.next l ls) (.next r rs) =
      match Row.compareLines (l.keyOf width) (r.keyOf width) with
      | .lt => equalsJoin width ls (.next r rs)
      | .gt => equalsJoin width (.next l ls) rs
      | .eq =>
        match takeGroup width (l.keyOf width) ls with
        | .error e => .failed e
        | .ok (lefts, ls') =>
          match takeGroup width (l.keyOf width) rs with
          | .error e => .failed e
          | .ok (rights, rs') =>
            Feed.prepend (pairs (l.keyOf width).length (l :: lefts) (r :: rights))
              (equalsJoin width ls' rs') := by
  rw [equalsJoin]
  cases Row.compareLines (l.keyOf width) (r.keyOf width) with
  | lt => rfl
  | gt => rfl
  | eq =>
    simp only
    split
    · next h => rw [h]
    · next h =>
      rw [h]
      simp only
      split
      · next h' => rw [h']
      · next h' => rw [h']

/-- Without a left row there are no pairs. -/
theorem equalsJoin_nil_left (rights : List Row) :
    equalsJoin width .done (Feed.ofList rights) = .done := by
  cases rights <;> simp [Feed.ofList, equalsJoin]

/-- Without a right row there are none either. -/
theorem equalsJoin_nil_right (lefts : List Row) :
    equalsJoin width (Feed.ofList lefts) .done = .done := by
  cases lefts <;> simp [Feed.ofList, equalsJoin]

/-- Nor are there when every row is looked up. -/
theorem equalPairs_nil_right (lefts : List Row) : equalPairs width lefts [] = [] :=
  List.flatMap_eq_nil_iff.2 fun _ _ => rfl

/-- On rows that ascend by the compared key, the join delivers exactly the pairs of equal keys. -/
theorem equalsJoin_ofList : ∀ {lefts rights : List Row}, SortedOn width lefts →
    SortedOn width rights → equalsJoin width (Feed.ofList lefts) (Feed.ofList rights) =
      Feed.ofList (equalPairs width lefts rights)
  | [], rights, _, _ => equalsJoin_nil_left rights
  | l :: ls, [], _, _ => by rw [equalPairs_nil_right]; exact equalsJoin_nil_right _
  | l :: ls, r :: rs, hl, hr => by
    rw [Feed.ofList, Feed.ofList, equalsJoin]
    split
    · next hlt =>
      -- the left row is below every right row
      rw [equalPairs_cons_of_lt fun x hx => hr.lt_of_mem hlt hx]
      exact equalsJoin_ofList hl.tail hr
    · next hgt =>
      -- the right row is below every left row
      have hlt := Std.OrientedCmp.lt_of_gt hgt
      have hskip : equalPairs width (l :: ls) ([r] ++ rs) = equalPairs width (l :: ls) rs :=
        equalPairs_append_right fun x hx y hy => by
          rw [List.mem_singleton.1 hy]
          exact hl.lt_of_mem hlt hx
      show _ = Feed.ofList (equalPairs width (l :: ls) ([r] ++ rs))
      rw [hskip]
      exact equalsJoin_ofList hl hr.tail
    · next heq =>
      -- a group on each side, and everything behind the two has a larger key
      have hkey : l.keyOf width = r.keyOf width := Std.LawfulEqCmp.eq_of_compare heq
      obtain ⟨lefts, ls', htake, hls, hlefts, hls'⟩ := takeGroup_ofList hl
      obtain ⟨rights, rs', htake', hrs, hrights, hrs'⟩ := takeGroup_ofList hr
      rw [← hkey] at htake' hrights hrs'
      split
      · next h => rw [htake] at h; cases h
      · next h =>
        rw [htake, Except.ok.injEq, Prod.mk.injEq] at h
        obtain ⟨rfl, rfl⟩ := h
        split
        · next h => rw [htake'] at h; cases h
        · next h =>
          rw [htake', Except.ok.injEq, Prod.mk.injEq] at h
          obtain ⟨rfl, rfl⟩ := h
          have hsub : ls'.Sublist ls := hls ▸ List.sublist_append_right ..
          have hsub' : rs'.Sublist rs := hrs ▸ List.sublist_append_right ..
          have hlen := hsub.length_le
          have hlen' := hsub'.length_le
          rw [equalsJoin_ofList (hl.tail.sublist hsub) (hr.tail.sublist hsub'),
            Feed.prepend_ofList, ← equalPairs_groups
              (List.forall_mem_cons.2 ⟨rfl, hlefts⟩) (List.forall_mem_cons.2 ⟨hkey.symm, hrights⟩)
              hls' hrs', List.cons_append, List.cons_append, ← hls, ← hrs]
termination_by lefts rights => lefts.length + rights.length
decreasing_by all_goals simp only [List.length_cons]; omega

/-! ## Joins by target -/

/-- The row that an inner join delivers for the first left row of a target, if the right side has
the target. -/
def joined (rights : List Row) (l : Row) : Option Row :=
  match partners (some 1) l rights with
  | [] => none
  | r :: rs => some ((r :: rs).foldl Row.absorb (l.trim 1))

/-- One row for every target that both lists have, from the first left row of the target. -/
def commonTargets (lefts rights : List Row) : List Row :=
  (lefts.eraseDupsBy (sameKey (some 1))).filterMap (joined rights)

/-- What the inner join does with two rows in front. -/
theorem innerJoin_next (l r : Row) (ls rs : RowFeed) :
    innerJoin (.next l ls) (.next r rs) =
      match Term.compare l.target r.target with
      | .lt => innerJoin ls (.next r rs)
      | .gt => innerJoin (.next l ls) rs
      | .eq =>
        match takeGroup (some 1) [l.target] ls with
        | .error e => .failed e
        | .ok (_, ls') =>
          match takeGroup (some 1) [l.target] rs with
          | .error e => .failed e
          | .ok (rights, rs') =>
            .next ((r :: rights).foldl Row.absorb (l.trim 1)) (innerJoin ls' rs') := by
  rw [innerJoin]
  cases Term.compare l.target r.target with
  | lt => rfl
  | gt => rfl
  | eq =>
    simp only
    split
    · next h => rw [h]
    · next h =>
      rw [h]
      simp only
      split
      · next h' => rw [h']
      · next h' => rw [h']

theorem innerJoin_nil_left (rights : List Row) :
    innerJoin .done (Feed.ofList rights) = .done := by
  cases rights <;> simp [Feed.ofList, innerJoin]

theorem innerJoin_nil_right (lefts : List Row) :
    innerJoin (Feed.ofList lefts) .done = .done := by
  cases lefts <;> simp [Feed.ofList, innerJoin]

theorem commonTargets_nil_right (lefts : List Row) : commonTargets lefts [] = [] :=
  List.filterMap_eq_nil_iff.2 fun _ _ => rfl

/-- A group whose key no left row has can be passed over. -/
theorem commonTargets_append_right {lefts group rest : List Row}
    (h : ∀ l ∈ lefts, ∀ r ∈ group, r.keyOf (some 1) ≠ l.keyOf (some 1)) :
    commonTargets lefts (group ++ rest) = commonTargets lefts rest := by
  refine List.filterMap_congr fun l hl => ?_
  rw [joined, joined, partners_append (h l ((eraseDupsBy_sublist _).subset hl))]

/-- A left target, what follows it on the left, and everything behind the target. -/
theorem eraseDupsBy_group {l : Row} {group rest : List Row}
    (hgroup : ∀ x ∈ group, x.keyOf width = l.keyOf width)
    (hrest : ∀ x ∈ rest, compareLines (l.keyOf width) (x.keyOf width) = .lt) :
    (l :: (group ++ rest)).eraseDupsBy (sameKey width) =
      l :: rest.eraseDupsBy (sameKey width) := by
  rw [List.eraseDupsBy_cons, List.filter_append,
    List.filter_eq_nil_iff.2 fun x hx => by simp [sameKey, hgroup x hx],
    List.filter_eq_self.2 fun x hx => by
      simpa [sameKey] using Row.ne_of_compareLines_lt (hrest x hx)]
  rfl

/-- Two groups of one target make one row, with all that the right group adds to its trace. -/
theorem commonTargets_groups {l r : Row} {group rest rights rest' : List Row}
    (hgroup : ∀ x ∈ group, x.keyOf (some 1) = l.keyOf (some 1))
    (hrest : ∀ x ∈ rest, compareLines (l.keyOf (some 1)) (x.keyOf (some 1)) = .lt)
    (hr : ∀ x ∈ r :: rights, x.keyOf (some 1) = l.keyOf (some 1))
    (hrest' : ∀ x ∈ rest', compareLines (l.keyOf (some 1)) (x.keyOf (some 1)) = .lt) :
    commonTargets (l :: (group ++ rest)) ((r :: rights) ++ rest') =
      (r :: rights).foldl Row.absorb (l.trim 1) :: commonTargets rest rest' := by
  have hpartners : partners (some 1) l ((r :: rights) ++ rest') = r :: rights := by
    rw [partners, List.filter_append, List.filter_eq_self.2 fun x hx => by simpa using hr x hx,
      List.filter_eq_nil_iff.2 fun x hx => by simpa using Row.ne_of_compareLines_lt (hrest' x hx),
      List.append_nil]
  rw [commonTargets, eraseDupsBy_group hgroup hrest, List.filterMap_cons, joined, hpartners,
    ← commonTargets, commonTargets_append_right fun x hx y hy => ?_]
  rw [hr y hy]
  exact (Row.ne_of_compareLines_lt (hrest x hx)).symm

/-- A left row whose target the right side lacks may go. -/
theorem commonTargets_cons_of_none {l : Row} {ls rights : List Row}
    (hl : SortedOn (some 1) (l :: ls))
    (h : ∀ r ∈ rights, compareLines (l.keyOf (some 1)) (r.keyOf (some 1)) = .lt) :
    commonTargets (l :: ls) rights = commonTargets ls rights := by
  have hnone : ∀ x : Row, x.keyOf (some 1) = l.keyOf (some 1) → joined rights x = none := by
    intro x hx
    rw [joined, partners_eq_nil fun r hr => by rw [hx]; exact h r hr]
  obtain ⟨group, rest, -, rfl, hgroup, hrest⟩ := takeGroup_ofList hl
  -- the rest of the group stands for the target now, and is missed as well
  rw [commonTargets, eraseDupsBy_group hgroup hrest, List.filterMap_cons, hnone l rfl]
  cases group with
  | nil => rfl
  | cons g gs =>
    obtain ⟨hg, hgs⟩ := List.forall_mem_cons.1 hgroup
    rw [List.cons_append, commonTargets, eraseDupsBy_group
      (fun x hx => (hgs x hx).trans hg.symm) fun x hx => by rw [hg]; exact hrest x hx,
      List.filterMap_cons, hnone g hg]

/-- Comparing targets is comparing keys of one column. -/
theorem compare_target (l r : Row) :
    l.target.compare r.target = compareLines (l.keyOf (some 1)) (r.keyOf (some 1)) :=
  (Row.compareLines_singleton _ _).symm

/-- On rows that ascend by target, the inner join is the intersection of the targets. -/
theorem innerJoin_ofList : ∀ {lefts rights : List Row}, SortedOn (some 1) lefts →
    SortedOn (some 1) rights → innerJoin (Feed.ofList lefts) (Feed.ofList rights) =
      Feed.ofList (commonTargets lefts rights)
  | [], rights, _, _ => innerJoin_nil_left rights
  | l :: ls, [], _, _ => by rw [commonTargets_nil_right]; exact innerJoin_nil_right _
  | l :: ls, r :: rs, hl, hr => by
    rw [Feed.ofList, Feed.ofList, innerJoin]
    simp only [compare_target]
    split
    · next hlt =>
      -- the right side does not have the target of the left row
      rw [commonTargets_cons_of_none hl fun x hx => hr.lt_of_mem hlt hx]
      exact innerJoin_ofList hl.tail hr
    · next hgt =>
      -- the left side does not have the target of the right row
      have hlt := Std.OrientedCmp.lt_of_gt hgt
      have hskip : commonTargets (l :: ls) ([r] ++ rs) = commonTargets (l :: ls) rs :=
        commonTargets_append_right fun x hx y hy => by
          rw [List.mem_singleton.1 hy]
          exact (Row.ne_of_compareLines_lt (hl.lt_of_mem hlt hx)).symm
      show _ = Feed.ofList (commonTargets (l :: ls) ([r] ++ rs))
      rw [hskip]
      exact innerJoin_ofList hl hr.tail
    · next heq =>
      -- of the left group only the first row counts
      have hkey : l.keyOf (some 1) = r.keyOf (some 1) := Std.LawfulEqCmp.eq_of_compare heq
      obtain ⟨lefts, ls', htake, hls, hlefts, hls'⟩ := takeGroup_ofList hl
      obtain ⟨rights, rs', htake', hrs, hrights, hrs'⟩ := takeGroup_ofList hr
      rw [← hkey] at htake' hrights hrs'
      split
      · next h => rw [← Row.keyOf_one, htake] at h; cases h
      · next h =>
        rw [← Row.keyOf_one, htake, Except.ok.injEq, Prod.mk.injEq] at h
        obtain ⟨rfl, rfl⟩ := h
        split
        · next h => rw [← Row.keyOf_one, htake'] at h; cases h
        · next h =>
          rw [← Row.keyOf_one, htake', Except.ok.injEq, Prod.mk.injEq] at h
          obtain ⟨rfl, rfl⟩ := h
          have hsub : ls'.Sublist ls := hls ▸ List.sublist_append_right ..
          have hsub' : rs'.Sublist rs := hrs ▸ List.sublist_append_right ..
          have hlen := hsub.length_le
          have hlen' := hsub'.length_le
          rw [innerJoin_ofList (hl.tail.sublist hsub) (hr.tail.sublist hsub'), hls, hrs]
          show _ = Feed.ofList (commonTargets (l :: (lefts ++ ls')) ((r :: rights) ++ rs'))
          rw [commonTargets_groups hlefts hls' (List.forall_mem_cons.2 ⟨hkey.symm, hrights⟩) hrs']
          rfl
termination_by lefts rights => lefts.length + rights.length
decreasing_by all_goals simp only [List.length_cons]; omega

/-! ## The targets of an inner join -/

section Intersection

variable {lefts rights rows : List Row} {x : Row}

/-- One row for each target, in ascending order of the targets. -/
theorem pairwise_target_eraseDupsBy (h : SortedOn (some 1) rows) :
    (rows.eraseDupsBy (sameKey (some 1))).Pairwise fun a b => a.target.compare b.target = .lt := by
  refine List.Pairwise.imp₂ (fun a b hle hne => ?_) (h.sublist (eraseDupsBy_sublist _))
    (pairwise_eraseDupsBy rows)
  rw [compare_target]
  exact Ordered.eq_lt_of_isLE hle fun heq => hne (Std.LawfulEqCmp.eq_of_compare heq)

/-- A left row is joined if the right side has its target. -/
theorem joined_eq_some_iff {l : Row} : joined rights l = some x ↔
    (∃ r ∈ rights, r.target = l.target) ∧
      (partners (some 1) l rights).foldl Row.absorb (l.trim 1) = x := by
  have hmem : (∃ r ∈ rights, r.target = l.target) ↔ partners (some 1) l rights ≠ [] := by
    constructor
    · intro hex
      obtain ⟨r, hr⟩ := hex
      exact List.ne_nil_of_mem (mem_partners.2 hr)
    · intro hne
      obtain ⟨r, hr⟩ := List.exists_mem_of_ne_nil _ hne
      exact ⟨r, mem_partners.1 hr⟩
  rw [hmem, joined]
  split
  · next h => exact iff_of_false (Option.some_ne_none x).symm fun hx => hx.1 h
  · next h =>
    rw [h]
    exact Option.some_inj.trans (and_iff_right (List.cons_ne_nil _ _)).symm

/-- What is joined has the target as its only column. -/
theorem line_of_joined {l : Row} (h : joined rights l = some x) : x.line = [l.target] := by
  rw [← (joined_eq_some_iff.1 h).2]
  exact Row.line_foldl_absorb _ _

/-- What is joined is about the target on the left. -/
theorem target_of_joined {l : Row} (h : joined rights l = some x) : x.target = l.target :=
  (List.cons.inj (line_of_joined h)).1

/-- An inner join delivers every target once, in ascending order. -/
theorem pairwise_commonTargets (h : SortedOn (some 1) lefts) (rights : List Row) :
    (commonTargets lefts rights).Pairwise fun x y => x.target.compare y.target = .lt := by
  refine List.Pairwise.filterMap _ (fun a b hab x hx y hy => ?_) (pairwise_target_eraseDupsBy h)
  rw [target_of_joined hx, target_of_joined hy]
  exact hab

/-- It delivers what is joined to the first left row of a target. -/
theorem mem_commonTargets : x ∈ commonTargets lefts rights ↔
    ∃ l ∈ lefts.eraseDupsBy (sameKey (some 1)), joined rights l = some x :=
  List.mem_filterMap

/-- It delivers nothing but targets. -/
theorem line_of_mem_commonTargets (h : x ∈ commonTargets lefts rights) : x.line = [x.target] := by
  obtain ⟨l, -, hjoined⟩ := mem_commonTargets.1 h
  exact target_of_joined hjoined ▸ line_of_joined hjoined

/-- The targets are those of both lists. -/
theorem mem_targets_commonTargets {t : Term} : t ∈ (commonTargets lefts rights).map Row.target ↔
    t ∈ lefts.map Row.target ∧ t ∈ rights.map Row.target := by
  simp only [List.mem_map]
  constructor
  · intro hex
    obtain ⟨x, hx, rfl⟩ := hex
    obtain ⟨l, hl, hjoined⟩ := mem_commonTargets.1 hx
    rw [target_of_joined hjoined]
    exact ⟨⟨l, (eraseDupsBy_sublist _).subset hl, rfl⟩, (joined_eq_some_iff.1 hjoined).1⟩
  · intro hboth
    obtain ⟨⟨a, ha, rfl⟩, hright⟩ := hboth
    obtain ⟨l, hl, hkey⟩ := exists_mem_eraseDupsBy ha
    rw [← Row.keyOf_eq_iff.1 hkey] at hright ⊢
    have hjoined := joined_eq_some_iff.2 ⟨hright, rfl⟩
    exact ⟨_, mem_commonTargets.2 ⟨l, hl, hjoined⟩, target_of_joined hjoined⟩

end Intersection

/-! ## Anti joins -/

/-- The left rows whose target the right list does not have. -/
def missing (lefts rights : List Row) : List Row :=
  lefts.filter fun l => (partners (some 1) l rights).isEmpty

/-- Without right rows an anti join lets everything through. -/
theorem antiJoin_done (feed : RowFeed) : antiJoin feed .done = feed := by
  induction feed with
  | done => rfl
  | failed e => rfl
  | next l ls ih => rw [antiJoin, skipBelow, ih]

/-- Passing over the rows below a target passes over nothing that a later left row could need. -/
theorem skipBelow_ofList (t : Term) : ∀ {rows : List Row}, SortedOn (some 1) rows →
    ∃ below rest, skipBelow t (Feed.ofList rows) = Feed.ofList rest ∧ rows = below ++ rest ∧
      (∀ r ∈ below, r.target.compare t = .lt) ∧
      ∀ r ∈ rest, (t.compare r.target).isLE
  | [], _ => ⟨[], [], rfl, rfl, by simp, by simp⟩
  | r :: rows, h => by
    rw [Feed.ofList, skipBelow]
    cases hc : r.target.compare t with
    | lt =>
      obtain ⟨below, rest, hskip, rfl, hbelow, hrest⟩ := skipBelow_ofList t h.tail
      exact ⟨r :: below, rest, hskip, rfl, List.forall_mem_cons.2 ⟨hc, hbelow⟩, hrest⟩
    | eq =>
      refine ⟨[], r :: rows, rfl, rfl, by simp, fun x hx => ?_⟩
      rw [← Term.eq_of_compare_eq hc, compare_target]
      exact h.isLE_of_mem hx
    | gt =>
      refine ⟨[], r :: rows, rfl, rfl, by simp, fun x hx => ?_⟩
      -- nothing has to be skipped, as the rows ascend from here
      have hlt : t.compare r.target = .lt := Std.OrientedCmp.lt_of_gt hc
      have hle : (r.target.compare x.target).isLE := by
        rw [compare_target]
        exact h.isLE_of_mem hx
      rw [Std.TransCmp.lt_of_lt_of_isLE hlt hle]
      rfl

/-- Right rows of targets that do not occur on the left can be passed over. -/
theorem missing_append {lefts below rest : List Row}
    (h : ∀ l ∈ lefts, ∀ r ∈ below, r.target ≠ l.target) :
    missing lefts (below ++ rest) = missing lefts rest := by
  refine List.filter_congr fun l hl => ?_
  rw [partners_append fun r hr => mt Row.keyOf_eq_iff.1 (h l hl r hr)]

/-- A target that is below another is not that target. -/
theorem target_ne_of_lt {a b : Term} (h : a.compare b = .lt) : a ≠ b := by
  intro heq
  subst heq
  rw [Term.compare_self] at h
  cases h

/-- On rows that ascend by target, the anti join is the difference by target. -/
theorem antiJoin_ofList : ∀ {lefts rights : List Row}, SortedOn (some 1) lefts →
    SortedOn (some 1) rights → antiJoin (Feed.ofList lefts) (Feed.ofList rights) =
      Feed.ofList (missing lefts rights)
  | [], _, _, _ => rfl
  | l :: ls, rights, hl, hr => by
    obtain ⟨below, rest, hskip, rfl, hbelow, hrest⟩ := skipBelow_ofList l.target hr
    -- what is passed over for this row, no later row needs
    have hbehind : ∀ x ∈ l :: ls, ∀ r ∈ below, r.target ≠ x.target := by
      intro x hx r hrm
      refine target_ne_of_lt (Std.TransCmp.lt_of_lt_of_isLE (hbelow r hrm) ?_)
      rw [compare_target]
      exact hl.isLE_of_mem hx
    have hrs : SortedOn (some 1) rest := hr.sublist (List.sublist_append_right ..)
    rw [missing_append hbehind, Feed.ofList, antiJoin, hskip]
    cases rest with
    | nil =>
      have hall : missing (l :: ls) [] = l :: ls := List.filter_eq_self.2 fun _ _ => rfl
      show Feed.next l (antiJoin (Feed.ofList ls) .done) = _
      rw [antiJoin_done, hall]
      rfl
    | cons r rs =>
      have ih : antiJoin (Feed.ofList ls) (.next r (Feed.ofList rs)) =
          Feed.ofList (missing ls (r :: rs)) := antiJoin_ofList hl.tail hrs
      show (if r.target = l.target then _ else _) = _
      by_cases he : r.target = l.target
      · have hp : (partners (some 1) l (r :: rs)).isEmpty = false := by
          rw [partners, List.filter_cons_of_pos (by simpa using Row.keyOf_eq_iff.2 he)]
          rfl
        rw [if_pos he, ih, missing, missing, List.filter_cons_of_neg (by simp [hp])]
      · have hp : (partners (some 1) l (r :: rs)).isEmpty = true := by
          rw [partners_eq_nil fun x hx => hrs.lt_of_mem ?_ hx]
          · rfl
          · have hle := hrest r (List.mem_cons_self ..)
            rw [← compare_target]
            exact Ordered.eq_lt_of_isLE hle fun heq => he (Term.eq_of_compare_eq heq).symm
        rw [if_neg he, ih, missing, missing, List.filter_cons_of_pos (by simp [hp])]
        rfl

/-! ## Counting values -/

/-- The values of a target. -/
def valuesFor (t : Term) (values : List Row) : List Term :=
  (values.filter fun r => r.target = t).filterMap Row.value?

/-- Rows of other targets can be passed over. -/
theorem valuesFor_append {t : Term} {passed rest : List Row} (h : ∀ r ∈ passed, r.target ≠ t) :
    valuesFor t (passed ++ rest) = valuesFor t rest := by
  rw [valuesFor, List.filter_append, List.filter_eq_nil_iff.2 fun r hr => by simpa using h r hr]
  rfl

/-- Gathering the values of a target passes over nothing that a larger target could need. -/
theorem gather_ofList (t : Term) : ∀ {values : List Row}, SortedOn (some 1) values →
    ∃ passed rest, gather t (Feed.ofList values) = .ok (valuesFor t values, Feed.ofList rest) ∧
      values = passed ++ rest ∧ ∀ r ∈ passed, (r.target.compare t).isLE
  | [], _ => ⟨[], [], rfl, rfl, by simp⟩
  | r :: values, h => by
    obtain ⟨passed, rest, hgather, happ, hpassed⟩ := gather_ofList t h.tail
    rw [Feed.ofList, gather]
    by_cases he : r.target = t
    · have hlt : (r.target.compare t).isLT = false := by rw [he, Term.compare_self]; rfl
      have hvalues : valuesFor t (r :: values) = r.value?.toList ++ valuesFor t values := by
        rw [valuesFor, List.filter_cons_of_pos (by simpa using he), List.filterMap_cons]
        cases r.value? <;> rfl
      refine ⟨r :: passed, rest, ?_, congrArg (r :: ·) happ, List.forall_mem_cons.2 ⟨?_, hpassed⟩⟩
      · rw [hlt, if_neg Bool.false_ne_true, if_pos he, hgather, hvalues]
        rfl
      · rw [he, Term.compare_self]
        rfl
    · have hvalues : valuesFor t ([r] ++ values) = valuesFor t values :=
        valuesFor_append (by simpa using he)
      cases hc : r.target.compare t with
      | lt =>
        refine ⟨r :: passed, rest, ?_, congrArg (r :: ·) happ,
          List.forall_mem_cons.2 ⟨by rw [hc]; rfl, hpassed⟩⟩
        rw [← List.singleton_append, hvalues]
        exact hgather
      | eq => exact absurd (Term.eq_of_compare_eq hc) he
      | gt =>
        refine ⟨[], r :: values, ?_, rfl, by simp⟩
        -- every row from here on is beyond the target
        have hnone : valuesFor t (r :: values) = [] := by
          rw [valuesFor, List.filter_eq_nil_iff.2 fun x hx => ?_]
          · rfl
          · have hlt := Std.OrientedCmp.lt_of_gt hc
            have hle : (r.target.compare x.target).isLE := by
              rw [compare_target]
              exact h.isLE_of_mem hx
            simpa using (target_ne_of_lt (Std.TransCmp.lt_of_lt_of_isLE hlt hle)).symm
        rw [hnone, if_neg he]
        rfl

/-- On strictly ascending targets and values that ascend by target, every target is judged by
exactly its own values. -/
theorem countValues_ofList {test : List Term → Bool} : ∀ {targets values : List Row},
    (targets.Pairwise fun a b => a.target.compare b.target = .lt) → SortedOn (some 1) values →
    countValues test (Feed.ofList targets) (Feed.ofList values) =
      Feed.ofList ((targets.filter fun t => test (valuesFor t.target values)).map (Row.trim 1))
  | [], _, _, _ => rfl
  | t :: ts, values, ht, hv => by
    obtain ⟨ht, hts⟩ := List.pairwise_cons.1 ht
    obtain ⟨passed, rest, hgather, rfl, hpassed⟩ := gather_ofList t.target hv
    -- the values that were passed over are not those of a larger target
    have hrest : ∀ x ∈ ts, valuesFor x.target (passed ++ rest) = valuesFor x.target rest :=
      fun x hx => valuesFor_append fun r hr =>
        target_ne_of_lt (Std.TransCmp.lt_of_isLE_of_lt (hpassed r hr) (ht x hx))
    have htail : (ts.filter fun t => test (valuesFor t.target (passed ++ rest))) =
        ts.filter fun t => test (valuesFor t.target rest) :=
      List.filter_congr fun x hx => by rw [hrest x hx]
    rw [Feed.ofList, countValues, hgather]
    simp only
    rw [countValues_ofList hts (hv.sublist (List.sublist_append_right ..)), List.filter_cons, htail]
    split <;> rfl

end RowFeed

end GraphShapes
