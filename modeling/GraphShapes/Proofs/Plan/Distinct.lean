import GraphShapes.Proofs.Plan.Reads

/-!
# First occurrences

A row is dropped as a repetition if its key has been seen, and the keys seen are kept in a set that
forgets where and how often they came. `Row.firsts` says the same by positions alone: a row stays if
no row in front of it in the input has its key. That the set holds the keys of exactly those rows,
also of the ones that were dropped themselves, is the invariant of `RowFeed.uniqueFrom_firsts`.

`Plan.unique_keeps_first` is about streams in any order. The rows that stay come in the order of the
input and with all that they carry, every key is there once, and nothing is left to drop for a second
such stage.
-/

namespace GraphShapes

namespace Row

/-- The rows that have a key which no row in front of them has, where some rows went before. -/
def firstsAfter (key : Row → List Term) (before rows : List Row) : List Row :=
  ((rows.zipIdx before.length).filter fun placed =>
    ((before ++ rows).take placed.2).all fun earlier => key earlier ≠ key placed.1).map Prod.fst

/-- The rows that have a key which no row in front of them has. -/
def firsts (key : Row → List Term) (rows : List Row) : List Row := firstsAfter key [] rows

theorem firstsAfter_cons (key : Row → List Term) (before : List Row) (r : Row) (rest : List Row) :
    firstsAfter key before (r :: rest) =
      if key r ∈ before.map key then firstsAfter key (before ++ [r]) rest
      else r :: firstsAfter key (before ++ [r]) rest := by
  have hlength : (before ++ [r]).length = before.length + 1 := List.length_append
  unfold firstsAfter
  rw [List.zipIdx_cons, hlength, List.append_assoc, List.singleton_append]
  split
  · next h => rw [List.filter_cons_of_neg (by simpa using h)]
  · next h => rw [List.filter_cons_of_pos (by simpa using h), List.map_cons]

end Row

open Row (firsts firstsAfter firstsAfter_cons)

namespace RowFeed

variable {width : Option Nat}

/-- The set of keys seen is that of all rows that came, whether they were handed on or not. -/
theorem uniqueFrom_firsts : ∀ {rows before : List Row} {seen : List (List Term)},
    (∀ k, k ∈ seen ↔ k ∈ before.map (Row.keyOf width)) →
      uniqueFrom width seen (Feed.ofList rows) =
        Feed.ofList (firstsAfter (Row.keyOf width) before rows)
  | [], _, _, _ => rfl
  | r :: rows, before, seen, h => by
    have hnext : ∀ k, k ∈ (before ++ [r]).map (Row.keyOf width) ↔ k = r.keyOf width ∨ k ∈ seen := by
      intro k
      rw [List.map_append, List.mem_append, ← h, List.map_singleton, List.mem_singleton, or_comm]
    rw [Feed.ofList, uniqueFrom, firstsAfter_cons]
    by_cases hr : r.keyOf width ∈ seen
    · rw [if_pos hr, if_pos ((h _).1 hr)]
      refine uniqueFrom_firsts fun k => ?_
      rw [hnext]
      exact ⟨.inr, fun hk => hk.elim (fun e => e ▸ hr) id⟩
    · rw [if_neg hr, if_neg fun hk => hr ((h _).2 hk), Feed.ofList]
      congr 1
      refine uniqueFrom_firsts fun k => ?_
      rw [hnext, List.mem_cons]

theorem eraseDupsBy_eq_firsts (rows : List Row) :
    rows.eraseDupsBy (sameKey width) = firsts (Row.keyOf width) rows := by
  refine Feed.ofList_injective (ε := OpError) ?_
  rw [← unique_ofList]
  exact uniqueFrom_firsts fun _ => Iff.rfl

end RowFeed

namespace Plan

variable {ss : Splitters} {input : Plan} {rows : List Row}

/-- Drops rows that repeat a line, or the first columns of one. -/
def uniqueBy (input : Plan) : Option Nat → Plan
  | none => unique input none
  | some width => input.uniqueOn width

/-- At least the target is compared. -/
theorem uniqueBy_eq (input : Plan) (width : Option Nat) :
    input.uniqueBy width = unique input (width.map (max · 1)) := by
  cases width <;> rfl

theorem ReadsTo.unique (hlayered : ss.Layered) (h : input.ReadsTo ss rows) (width : Option Nat) :
    (Plan.unique input width).ReadsTo ss (firsts (Row.keyOf width) rows) := by
  have hyields : (Plan.unique input width).Yields ss (rows.eraseDupsBy (RowFeed.sameKey width)) := by
    rw [Yields, feedIn, meaning, (h.yields hlayered).meaning_eq, ← RowFeed.unique_ofList]
    rfl
  rw [← RowFeed.eraseDupsBy_eq_firsts]
  exact hyields.readsTo hlayered h.reads

/-- Of the rows of the input, those come that have a key for the first time. -/
theorem unique_keeps_first (hlayered : ss.Layered) (h : input.ReadsTo ss rows)
    (width : Option Nat) :
    let key := Row.keyOf (width.map (max · 1))
    let kept := firsts key rows
    (input.uniqueBy width).Brings ss kept ∧ kept.Sublist rows ∧ (kept.map key).Nodup ∧
      (∀ k, k ∈ kept.map key ↔ k ∈ rows.map key) ∧
      ((input.uniqueBy width).uniqueBy width).Brings ss kept := by
  intro key kept
  have hkept : rows.eraseDupsBy (RowFeed.sameKey (width.map (max · 1))) = kept :=
    RowFeed.eraseDupsBy_eq_firsts rows
  have honce : kept.Pairwise fun a b => key a ≠ key b := hkept ▸ RowFeed.pairwise_eraseDupsBy rows
  have hsublist : kept.Sublist rows := hkept ▸ RowFeed.eraseDupsBy_sublist rows
  -- no key is there twice, so dropping once more drops nothing
  have hagain : firsts key kept = kept := by
    rw [← RowFeed.eraseDupsBy_eq_firsts]
    exact RowFeed.eraseDupsBy_eq_self honce
  have hfirst := h.unique hlayered (width.map (max · 1))
  have hsecond := hfirst.unique hlayered (width.map (max · 1))
  rw [uniqueBy_eq, uniqueBy_eq]
  refine ⟨hfirst.brings, hsublist, List.pairwise_map.2 honce, fun k => ?_, hagain ▸ hsecond.brings⟩
  constructor
  · exact fun hk => (hsublist.map key).subset hk
  · intro hk
    obtain ⟨r, hr, rfl⟩ := List.mem_map.1 hk
    obtain ⟨r', hr', hsame⟩ := RowFeed.exists_mem_eraseDupsBy hr
    exact List.mem_map.2 ⟨r', hkept ▸ hr', hsame⟩

/-- Unsorted rows, some of which have fewer columns than are compared: a line that is the beginning of
another one is not a repetition of it. -/
theorem unique_keeps_first_short :
    let rows : List Row := [⟨.int 2, [.int 5, .int 6], .base, [⟨1⟩]⟩, ⟨.int 1, [], .delta, [⟨2⟩]⟩,
      ⟨.int 2, [.int 5, .int 7], .delta, [⟨3⟩]⟩, ⟨.int 2, [], .base, []⟩, ⟨.int 1, [], .base, [⟨4⟩]⟩]
    ((producer rows).uniqueBy (some 2)).Brings #[]
        [⟨.int 2, [.int 5, .int 6], .base, [⟨1⟩]⟩, ⟨.int 1, [], .delta, [⟨2⟩]⟩,
          ⟨.int 2, [], .base, []⟩] ∧
      ((producer rows).uniqueBy (some 0)).Brings #[]
        [⟨.int 2, [.int 5, .int 6], .base, [⟨1⟩]⟩, ⟨.int 1, [], .delta, [⟨2⟩]⟩] := by
  intro rows
  have hlayered : Splitters.Layered #[] := nofun
  have hrows := readsTo_producer hlayered rows
  exact ⟨(unique_keeps_first hlayered hrows (some 2)).1,
    (unique_keeps_first hlayered hrows (some 0)).1⟩

end Plan

end GraphShapes
