import GraphShapes.Proofs.RowFeed.Lists
import GraphShapes.RowFeed.Merge

/-!
# The merge of ascending rows

Merging the feeds of lists is merging the lists (`mergeAll_ofList`): nothing is lost or added, and
ascending rows stay ascending.
-/

namespace GraphShapes.RowFeed

/-- The rows of two lists in the order in which the smaller next row goes first. -/
def mergeLists (l r : List Row) : List Row := l.merge r fun a b => (Row.compare a b).isLE

theorem mergeNext_ofList {row : Row} {mergeRest : RowFeed → RowFeed} {l : List Row}
    (h : ∀ r, mergeRest (Feed.ofList r) = Feed.ofList (mergeLists l r)) (r : List Row) :
    mergeNext row mergeRest (Feed.ofList r) = Feed.ofList (mergeLists (row :: l) r) := by
  induction r with
  | nil =>
    show Feed.next row (mergeRest (Feed.ofList [])) = _
    rw [h, mergeLists, mergeLists, List.merge_right, List.merge_right]
    rfl
  | cons other r ih =>
    rw [Feed.ofList, mergeNext, mergeLists, List.cons_merge_cons]
    split
    · exact congrArg (Feed.next row) (h (other :: r))
    · exact congrArg (Feed.next other) ih

theorem merge_ofList : ∀ (l r : List Row),
    merge (Feed.ofList l) (Feed.ofList r) = Feed.ofList (mergeLists l r)
  | [], r => by rw [mergeLists, List.nil_merge]; rfl
  | _ :: l, r => mergeNext_ofList (merge_ofList l) r

/-- The rows of many lists in the order in which the smallest next row goes first. -/
def mergeAllLists (ls : List (List Row)) : List Row := ls.foldr mergeLists []

theorem mergeAll_ofList (ls : List (List Row)) :
    mergeAll (ls.map Feed.ofList) = Feed.ofList (mergeAllLists ls) := by
  unfold mergeAll mergeAllLists
  induction ls with
  | nil => rfl
  | cons l ls ih => rw [List.map_cons, List.foldr_cons, ih, merge_ofList, List.foldr_cons]

theorem perm_mergeAllLists (ls : List (List Row)) : (mergeAllLists ls).Perm ls.flatten := by
  induction ls with
  | nil => exact List.Perm.refl _
  | cons l ls ih =>
    rw [List.flatten_cons]
    exact (List.merge_perm_append _).trans (ih.append_left l)

theorem sorted_mergeAllLists {ls : List (List Row)} (h : ∀ l ∈ ls, Row.Sorted l) :
    Row.Sorted (mergeAllLists ls) := by
  induction ls with
  | nil => exact List.Pairwise.nil
  | cons l ls ih =>
    obtain ⟨hl, hls⟩ := List.forall_mem_cons.1 h
    show List.Pairwise (fun a b => (Row.compare a b).isLE) _
    exact List.pairwise_merge (fun _ _ _ => Std.TransCmp.isLE_trans)
      Ordered.isLE_total _ _ hl (ih hls)

end GraphShapes.RowFeed
