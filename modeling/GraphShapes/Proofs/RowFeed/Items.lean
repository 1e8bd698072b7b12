import GraphShapes.Proofs.RowFeed.Join
import GraphShapes.Proofs.RowFeed.Merge

/-!
# What comes before a failure

`Feed.items` is what a reader gets of a feed, whether the feed ends there or breaks off. The lemmas
of this file say what each operator makes of the items of its inputs, failures or not. For the
operators with one input that is what they make of a list. The others may miss something behind a
failure, so there is a lemma about order and one about where the items come from.

The order of the lines is kept because the joins deliver lines of their left input, in its order
(`sublist_lines_equalsJoin`, `sublist_lines_innerJoin`, `sublist_antiJoin`, `sublist_countValues`),
and a merge delivers the beginning of what the merge of the two lists is (`merge_begins`).
-/

namespace GraphShapes

namespace Feed

variable {ε α β : Type} {feed : Feed ε α}

/-- The items, up to the end or the failure. -/
def items : Feed ε α → List α
  | done => []
  | failed _ => []
  | next a rest => a :: rest.items

@[simp]
theorem items_ofList (l : List α) : (ofList l : Feed ε α).items = l := by
  induction l with
  | nil => rfl
  | cons a l ih => rw [ofList, items, ih]

/-- A feed that was read to its end had no other items. -/
theorem items_of_toExcept {l : List α} (h : feed.toExcept = .ok l) : feed.items = l := by
  rw [eq_ofList_of_toExcept h, items_ofList]

/-- The first items that are taken are the first items. -/
theorem items_of_takeUpTo : ∀ {n : Nat} {feed : Feed ε α} {l : List α} {more : Bool},
    feed.takeUpTo n = .ok (l, more) → l = feed.items.take n
  | 0, feed, l, more, h => by
    rw [takeUpTo] at h
    cases hn : feed.nonempty with
    | error e => rw [hn] at h; cases h
    | ok b => rw [hn] at h; cases h; exact List.take_zero.symm
  | _ + 1, done, _, _, h => by
    cases h
    rfl
  | n + 1, next a rest, l, more, h => by
    rw [takeUpTo] at h
    cases hrest : rest.takeUpTo n with
    | error e => rw [hrest] at h; cases h
    | ok taken =>
      obtain ⟨l', more'⟩ := taken
      rw [hrest] at h
      cases h
      rw [items_of_takeUpTo hrest]
      rfl

/-- Changing items changes those that come. -/
theorem items_map (f : α → β) : ∀ feed : Feed ε α, (feed.map f).items = feed.items.map f
  | done => rfl
  | failed _ => rfl
  | next _ rest => by rw [map, items, items, items_map f rest, List.map_cons]

/-- Filtering keeps those of them that pass. -/
theorem items_filter (keep : α → Bool) :
    ∀ feed : Feed ε α, (feed.filter keep).items = feed.items.filter keep
  | done => rfl
  | failed _ => rfl
  | next a rest => by
    rw [filter, items, List.filter_cons]
    split
    · rw [items, items_filter keep rest]
    · exact items_filter keep rest

/-- Items that are put in front come first. -/
theorem items_prepend (l : List α) (feed : Feed ε α) :
    (prepend l feed).items = l ++ feed.items := by
  induction l with
  | nil => rfl
  | cons a l ih => rw [prepend, items, ih, List.cons_append]

/-- Where no item fails, the items are put in the place of those that they come from. -/
theorem items_expand {f : α → Except ε (List β)} {g : α → List β} :
    ∀ {feed : Feed ε α}, (∀ a ∈ feed.items, f a = .ok (g a)) →
      (feed.expand f).items = feed.items.flatMap g
  | done, _ => rfl
  | failed _, _ => rfl
  | next a rest, h => by
    obtain ⟨ha, hrest⟩ := List.forall_mem_cons.1 h
    rw [expand, ha, items, List.flatMap_cons, ← items_expand hrest]
    exact items_prepend ..

end Feed

namespace RowFeed

open Row (compareLines)

variable {width : Option Nat} {l r : RowFeed} {row : Row}

theorem items_trim (n : Nat) (feed : RowFeed) :
    (trim n feed).items = feed.items.map (Row.trim n) := Feed.items_map ..

theorem items_tag (shape : ShapeId) (feed : RowFeed) :
    (tag shape feed).items = feed.items.map (Row.tag shape) := Feed.items_map ..

/-- Which repetitions are dropped depends only on what comes before. -/
theorem items_uniqueFrom : ∀ (feed : RowFeed) (seen : List (List Term)),
    (uniqueFrom width seen feed).items = (uniqueFrom width seen (Feed.ofList feed.items)).items
  | .done, _ => rfl
  | .failed _, _ => rfl
  | .next row rest, seen => by
    rw [uniqueFrom, Feed.items, Feed.ofList, uniqueFrom]
    split
    · exact items_uniqueFrom rest seen
    · rw [Feed.items, Feed.items, items_uniqueFrom rest]

/-- The first row of every key comes. -/
theorem items_unique (feed : RowFeed) :
    (unique width feed).items = feed.items.eraseDupsBy (sameKey width) := by
  rw [unique, items_uniqueFrom]
  exact (congrArg Feed.items unique_ofList).trans (Feed.items_ofList _)

/-- Nothing is sorted before the input has ended. -/
theorem items_sorted (feed : RowFeed) :
    (sorted feed).items = [] ∨ (sorted feed).items = Ordered.sort Row.compare feed.items := by
  unfold sorted
  split
  · next h =>
    rw [Feed.items_ofList, Feed.items_of_toExcept h]
    exact .inr rfl
  · exact .inl rfl

/-! ## Merges -/

/-- One row of the left feed, given that the rest of the merge begins as the lists merge. -/
theorem mergeNext_begins {mergeRest : RowFeed → RowFeed} {rest : List Row}
    (h : ∀ other, (mergeRest other).items <+: mergeLists rest other.items) :
    ∀ other, (mergeNext row mergeRest other).items <+: mergeLists (row :: rest) other.items
  | .failed _ => List.nil_prefix
  | .done => by
    have hrest := h .done
    rw [Feed.items, mergeLists, List.merge_right] at hrest ⊢
    exact List.prefix_cons_inj row |>.2 hrest
  | .next other tail => by
    rw [Feed.items, mergeNext, mergeLists, List.cons_merge_cons]
    split
    · exact List.prefix_cons_inj row |>.2 (h (.next other tail))
    · exact List.prefix_cons_inj other |>.2 (mergeNext_begins h tail)

/-- A merge is the merge of the items until one of the feeds fails. -/
theorem merge_begins : ∀ l r : RowFeed, (merge l r).items <+: mergeLists l.items r.items
  | .failed _, _ => List.nil_prefix
  | .done, r => by
    have hnil : mergeLists [] r.items = r.items := by rw [mergeLists, List.nil_merge]
    have hdone : (merge .done r).items <+: r.items := List.prefix_rfl
    exact hnil.symm ▸ hdone
  | .next _ rest, r => mergeNext_begins (merge_begins rest) r

/-- A merge of ascending feeds is ascending as far as it goes. -/
theorem sorted_mergeAll {feeds : List RowFeed} (h : ∀ f ∈ feeds, Row.Sorted f.items) :
    Row.Sorted (mergeAll feeds).items := by
  induction feeds with
  | nil => exact .nil
  | cons f feeds ih =>
    obtain ⟨hf, hfeeds⟩ := List.forall_mem_cons.1 h
    have hmerged : Row.Sorted (mergeAllLists [f.items, (mergeAll feeds).items]) :=
      sorted_mergeAllLists (List.forall_mem_cons.2 ⟨hf, List.forall_mem_singleton.2 (ih hfeeds)⟩)
    rw [mergeAllLists, List.foldr_cons, List.foldr_cons, List.foldr_nil, mergeLists, mergeLists,
      List.merge_right] at hmerged
    exact hmerged.sublist (merge_begins _ _).sublist

/-- Its rows are rows of the feeds. -/
theorem mem_mergeAll {feeds : List RowFeed} (h : row ∈ (mergeAll feeds).items) :
    ∃ f ∈ feeds, row ∈ f.items := by
  induction feeds with
  | nil => exact absurd h List.not_mem_nil
  | cons f feeds ih =>
    have hmem := (merge_begins _ _).mem h
    rcases List.mem_merge.1 hmem with hf | hfeeds
    · exact ⟨f, List.mem_cons_self .., hf⟩
    · obtain ⟨g, hg, hrow⟩ := ih hfeeds
      exact ⟨g, List.mem_cons_of_mem _ hg, hrow⟩

/-! ## Joins -/

/-- A group is the beginning of the feed, up to the first row with another key. -/
theorem items_takeGroup {key : List Term} {rest : RowFeed} :
    ∀ {feed : RowFeed} {rows : List Row}, takeGroup width key feed = .ok (rows, rest) →
      feed.items = rows ++ rest.items ∧ ∀ x ∈ rows, x.keyOf width = key
  | .done, _, h => by
    obtain ⟨rfl, rfl⟩ := Prod.mk.inj (Except.ok.inj h)
    exact ⟨rfl, by simp⟩
  | .failed _, _, h => nomatch h
  | .next row tail, _, h => by
    rw [takeGroup] at h
    split at h
    · next hk =>
      cases htail : takeGroup width key tail with
      | error e => rw [htail] at h; cases h
      | ok p =>
        obtain ⟨group, rest'⟩ := p
        rw [htail] at h
        obtain ⟨rfl, rfl⟩ := Prod.mk.inj (Except.ok.inj h)
        obtain ⟨hitems, hkeys⟩ := items_takeGroup htail
        refine ⟨?_, List.forall_mem_cons.2 ⟨hk, hkeys⟩⟩
        rw [Feed.items, hitems, List.cons_append]
    · obtain ⟨rfl, rfl⟩ := Prod.mk.inj (Except.ok.inj h)
      exact ⟨rfl, by simp⟩

/-- What is left behind a group was there before. -/
theorem sublist_takeGroup {key : List Term} {feed rest : RowFeed} {rows : List Row}
    (h : takeGroup width key feed = .ok (rows, rest)) : rest.items.Sublist feed.items := by
  rw [(items_takeGroup h).1]
  exact List.sublist_append_right ..

/-- Among distinct lines every row is a group of its own. -/
theorem takeGroup_of_strict {feed rest : RowFeed} {rows : List Row}
    (hs : Row.Strict (row :: feed.items))
    (h : takeGroup none row.line feed = .ok (rows, rest)) : rows = [] := by
  obtain ⟨hitems, hkeys⟩ := items_takeGroup h
  rw [List.eq_nil_iff_forall_not_mem]
  intro x hx
  have hlt : compareLines row.line x.line = .lt :=
    (List.pairwise_cons.1 hs).1 x (hitems ▸ List.mem_append_left _ hx)
  exact Row.ne_of_compareLines_lt hlt (hkeys x hx)

/-- The rows of an equality join are combined from a row of either side. -/
theorem mem_equalsJoin {x : Row} (h : x ∈ (equalsJoin width l r).items) :
    ∃ a ∈ l.items, ∃ b ∈ r.items, ∃ n, x = combine n a b := by
  fun_induction equalsJoin width l r with
  | case6 l ls r rs key _ ih =>
    obtain ⟨a, ha, b, hb, hx⟩ := ih h
    exact ⟨a, List.mem_cons_of_mem _ ha, b, hb, hx⟩
  | case7 l ls r rs key _ ih =>
    obtain ⟨a, ha, b, hb, hx⟩ := ih h
    exact ⟨a, ha, b, List.mem_cons_of_mem _ hb, hx⟩
  | case10 l ls r rs key _ lefts ls' hl rights rs' hr ih =>
    rw [Feed.items_prepend, List.mem_append] at h
    -- a row of this group, or one from behind it
    rcases h with hpair | hrest
    · obtain ⟨a, ha, hx⟩ := List.mem_flatMap.1 hpair
      obtain ⟨b, hb, rfl⟩ := List.mem_map.1 hx
      refine ⟨a, ?_, b, ?_, _, rfl⟩
      · rw [Feed.items, (items_takeGroup hl).1, ← List.cons_append]
        exact List.mem_append_left _ ha
      · rw [Feed.items, (items_takeGroup hr).1, ← List.cons_append]
        exact List.mem_append_left _ hb
    · obtain ⟨a, ha, b, hb, hx⟩ := ih hrest
      exact ⟨a, List.mem_cons_of_mem _ ((sublist_takeGroup hl).mem ha), b,
        List.mem_cons_of_mem _ ((sublist_takeGroup hr).mem hb), hx⟩
  | _ => exact absurd h List.not_mem_nil

/-- The equality join of distinct lines delivers lines of the left side. -/
theorem sublist_lines_equalsJoin (hl : Row.Strict l.items) (hr : Row.Strict r.items) :
    ((equalsJoin none l r).items.map Row.line).Sublist (l.items.map Row.line) := by
  fun_induction equalsJoin none l r with
  | case6 l ls r rs key _ ih => exact (ih (List.pairwise_cons.1 hl).2 hr).cons _
  | case7 l ls r rs key _ ih => exact ih hl (List.pairwise_cons.1 hr).2
  | case10 l ls r rs key heq lefts ls' htake rights rs' htake' ih =>
    have hkey : l.line = r.line := Std.LawfulEqCmp.eq_of_compare heq
    obtain rfl := takeGroup_of_strict hl htake
    have hrights : takeGroup none r.line rs = .ok (rights, rs') := hkey ▸ htake'
    obtain rfl := takeGroup_of_strict hr hrights
    have hls := (items_takeGroup htake).1
    have hrs := (items_takeGroup htake').1
    rw [List.nil_append] at hls hrs
    have hrest := ih (hls ▸ (List.pairwise_cons.1 hl).2) (hrs ▸ (List.pairwise_cons.1 hr).2)
    rw [Feed.items_prepend, Feed.items, hls]
    have hline : (combine key.length l r).line = l.line := line_combine hkey.symm
    show List.Sublist ((combine key.length l r).line :: _) (l.line :: _)
    rw [hline]
    exact hrest.cons_cons _
  | _ => exact List.nil_sublist _

/-- The rows of an inner join are left rows cut to the target, with what right rows carry along. -/
theorem mem_innerJoin {x : Row} (h : x ∈ (innerJoin l r).items) :
    ∃ a ∈ l.items, ∃ others : List Row, (∀ b ∈ others, b ∈ r.items) ∧
      x = others.foldl Row.absorb (a.trim 1) := by
  fun_induction innerJoin l r with
  | case6 l ls r rs _ ih =>
    obtain ⟨a, ha, hx⟩ := ih h
    exact ⟨a, List.mem_cons_of_mem _ ha, hx⟩
  | case7 l ls r rs _ ih =>
    obtain ⟨a, ha, others, hothers, hx⟩ := ih h
    exact ⟨a, ha, others, fun b hb => List.mem_cons_of_mem _ (hothers b hb), hx⟩
  | case10 l ls r rs _ lefts ls' hl rights rs' hr ih =>
    rcases List.mem_cons.1 h with rfl | hrest
    · refine ⟨l, List.mem_cons_self .., r :: rights, fun b hb => ?_, rfl⟩
      rw [Feed.items, (items_takeGroup hr).1, ← List.cons_append]
      exact List.mem_append_left _ hb
    · obtain ⟨a, ha, others, hothers, hx⟩ := ih hrest
      exact ⟨a, List.mem_cons_of_mem _ ((sublist_takeGroup hl).mem ha), others,
        fun b hb => List.mem_cons_of_mem _ ((sublist_takeGroup hr).mem (hothers b hb)), hx⟩
  | _ => exact absurd h List.not_mem_nil

/-- If no target comes twice on the right, only one right row is joined to a left row. -/
theorem mem_innerJoin_of_distinct {x : Row}
    (hr : r.items.Pairwise fun a b => a.target ≠ b.target) (h : x ∈ (innerJoin l r).items) :
    ∃ a ∈ l.items, ∃ b ∈ r.items, x = (a.trim 1).absorb b := by
  fun_induction innerJoin l r with
  | case6 l ls r rs _ ih =>
    obtain ⟨a, ha, hx⟩ := ih hr h
    exact ⟨a, List.mem_cons_of_mem _ ha, hx⟩
  | case7 l ls r rs _ ih =>
    obtain ⟨a, ha, b, hb, hx⟩ := ih (List.pairwise_cons.1 hr).2 h
    exact ⟨a, ha, b, List.mem_cons_of_mem _ hb, hx⟩
  | case10 l ls r rs heq lefts ls' hl rights rs' htake ih =>
    obtain ⟨hdistinct, hrs⟩ := List.pairwise_cons.1 hr
    obtain ⟨hitems, hkeys⟩ := items_takeGroup htake
    -- the group of the first right row is that row alone
    have hrights : rights = [] := by
      rw [List.eq_nil_iff_forall_not_mem]
      intro b hb
      have htarget : b.target = l.target := (List.cons.inj (hkeys b hb)).1
      refine hdistinct b (hitems ▸ List.mem_append_left _ hb) ?_
      rw [htarget, Std.LawfulEqCmp.eq_of_compare heq]
    subst hrights
    rcases List.mem_cons.1 h with rfl | hrest
    · exact ⟨l, List.mem_cons_self .., r, List.mem_cons_self .., rfl⟩
    · obtain ⟨a, ha, b, hb, hx⟩ := ih (hrs.sublist (sublist_takeGroup htake)) hrest
      exact ⟨a, List.mem_cons_of_mem _ ((sublist_takeGroup hl).mem ha), b,
        List.mem_cons_of_mem _ ((sublist_takeGroup htake).mem hb), hx⟩
  | _ => exact absurd h List.not_mem_nil

/-- The inner join delivers targets of the left side. -/
theorem sublist_lines_innerJoin (l r : RowFeed) :
    ((innerJoin l r).items.map Row.line).Sublist (l.items.map fun a => [a.target]) := by
  fun_induction innerJoin l r with
  | case6 l ls r rs _ ih => exact ih.cons _
  | case7 l ls r rs _ ih => exact ih
  | case10 l ls r rs _ lefts ls' hl rights rs' hr ih =>
    have hline : ((r :: rights).foldl Row.absorb (l.trim 1)).line = [l.target] :=
      Row.line_foldl_absorb _ _
    rw [Feed.items, List.map_cons, hline]
    exact (ih.trans ((sublist_takeGroup hl).map _)).cons_cons _
  | _ => exact List.nil_sublist _

/-- The anti join delivers rows of the left side. -/
theorem sublist_antiJoin : ∀ l r : RowFeed, (antiJoin l r).items.Sublist l.items
  | .done, _ => by rw [antiJoin]
  | .failed _, _ => by rw [antiJoin]
  | .next a ls, r => by
    rw [antiJoin]
    split
    · exact List.nil_sublist _
    · exact (sublist_antiJoin ls _).cons_cons _
    · split
      · exact (sublist_antiJoin ls _).cons _
      · exact (sublist_antiJoin ls _).cons_cons _

/-- Counting delivers targets of the left side. -/
theorem sublist_countValues (test : List Term → Bool) : ∀ targets values : RowFeed,
    (countValues test targets values).items.Sublist (targets.items.map (Row.trim 1))
  | .done, _ => by rw [countValues]; exact .slnil
  | .failed _, _ => by rw [countValues]; exact .slnil
  | .next t ts, values => by
    rw [countValues]
    split
    · exact List.nil_sublist _
    · split
      · exact (sublist_countValues test ts _).cons_cons _
      · exact (sublist_countValues test ts _).cons _

end RowFeed

end GraphShapes
