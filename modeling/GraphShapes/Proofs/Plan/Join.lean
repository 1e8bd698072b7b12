import GraphShapes.Proofs.Plan.Reads
import GraphShapes.Proofs.RowFeed.Join

/-!
# Joins pair and intersect

On inputs that ascend by the columns that it compares, the equality join brings every left row with
every right row of its key and nothing else, by left row first (`equalsJoin_pairs`). The inner join
brings every target that both inputs have once, in ascending order (`innerJoin_intersects`).

What the rows of the inner join carry along is not the same for both sides: of the left rows of a
target only the first one counts, of the right rows all of them do.
-/

namespace GraphShapes

open Row (SortedOn)

theorem Scope.join_eq (a b : Scope) :
    a.join b = if a = .delta ∨ b = .delta then .delta else .base := by
  cases a <;> cases b <;> rfl

theorem Scope.join_eq_delta_iff {a b : Scope} : a.join b = .delta ↔ a = .delta ∨ b = .delta := by
  rw [join_eq]
  split
  · next h => exact iff_of_true rfl h
  · next h => exact iff_of_false nofun h

namespace RowFeed

/-! ## What rows absorb -/

theorem trace_foldl_absorb (rs : List Row) :
    ∀ r : Row, (rs.foldl Row.absorb r).trace = r.trace ++ rs.flatMap Row.trace := by
  induction rs with
  | nil => exact fun r => (List.append_nil r.trace).symm
  | cons x rs ih =>
    intro r
    rw [List.foldl_cons, ih, List.flatMap_cons, ← List.append_assoc]
    rfl

theorem scope_foldl_absorb (rs : List Row) : ∀ r : Row,
    (rs.foldl Row.absorb r).scope = .delta ↔ r.scope = .delta ∨ ∃ x ∈ rs, x.scope = .delta := by
  induction rs with
  | nil => exact fun r => (or_iff_left (by simp)).symm
  | cons x rs ih =>
    intro r
    rw [List.foldl_cons, ih, List.exists_mem_cons_iff, ← or_assoc]
    exact or_congr_left Scope.join_eq_delta_iff

/-- A right row adds its columns behind the key and all that it carries along. -/
theorem fields_combine (n : Nat) (l r : Row) :
    ((combine n l r).line, (combine n l r).trace, (combine n l r).scope) =
      (l.line ++ r.line.drop n, l.trace ++ r.trace,
        if l.scope = .delta ∨ r.scope = .delta then .delta else .base) :=
  congrArg (fun scope => (l.line ++ r.line.drop n, l.trace ++ r.trace, scope))
    (Scope.join_eq l.scope r.scope)

/-! ## What a shared target carries along -/

variable {width : Option Nat} {lefts rights : List Row}

/-- What is left when repeated keys are dropped is the first row of each key. -/
theorem find?_of_mem_eraseDupsBy : ∀ {rows : List Row} {l : Row},
    l ∈ rows.eraseDupsBy (sameKey width) →
      rows.find? (fun r => r.keyOf width = l.keyOf width) = some l
  | a :: rows, l, hl => by
    rw [List.eraseDupsBy_cons] at hl
    rcases List.mem_cons.1 hl with rfl | hl
    · exact List.find?_cons_of_pos (decide_eq_true rfl)
    · have hne : l.keyOf width ≠ a.keyOf width := by
        simpa [sameKey] using (List.mem_filter.1 ((eraseDupsBy_sublist _).subset hl)).2
      have hfirst := find?_of_mem_eraseDupsBy hl
      rw [List.find?_filter] at hfirst
      rw [List.find?_cons_of_neg (by simpa using hne.symm), ← hfirst]
      -- a row of that key does not have the key that was dropped
      refine congrArg (rows.find? ·) (funext fun r => ?_)
      by_cases hr : r.keyOf width = l.keyOf width
      · simp [hr, sameKey, hne]
      · simp [hr]
termination_by rows => rows.length
decreasing_by exact Nat.lt_succ_of_le (List.length_filter_le ..)

/-- A row of the intersection consists of a target. It carries along what the first left row of the
target does, and all right rows of the target do. -/
structure Meets (lefts rights : List Row) (x : Row) : Prop where
  line : x.line = [x.target]
  carries : ∃ l, lefts.find? (fun l => l.target = x.target) = some l ∧
    x.trace = l.trace ++ (rights.filter fun r => r.target = x.target).flatMap Row.trace ∧
    (x.scope = .delta ↔ l.scope = .delta ∨ ∃ r ∈ rights, r.target = x.target ∧ r.scope = .delta)

theorem meets_of_mem {x : Row} (hx : x ∈ commonTargets lefts rights) : Meets lefts rights x := by
  obtain ⟨l, hl, hjoined⟩ := mem_commonTargets.1 hx
  have htarget := target_of_joined hjoined
  have hfirst := find?_of_mem_eraseDupsBy hl
  have hpartners : partners (some 1) l rights = rights.filter fun r => r.target = l.target :=
    List.filter_congr fun r _ => decide_eq_decide.2 Row.keyOf_eq_iff
  obtain ⟨-, heq⟩ := joined_eq_some_iff.1 hjoined
  have htrace : x.trace = l.trace ++ (partners (some 1) l rights).flatMap Row.trace :=
    heq ▸ trace_foldl_absorb _ _
  have hscope : x.scope = .delta ↔
      l.scope = .delta ∨ ∃ r ∈ partners (some 1) l rights, r.scope = .delta :=
    heq ▸ scope_foldl_absorb _ _
  simp only [Row.keyOf_eq_iff] at hfirst
  simp only [mem_partners, and_assoc] at hscope
  rw [hpartners] at htrace
  rw [← htarget] at hfirst htrace hscope
  exact ⟨line_of_mem_commonTargets hx, l, hfirst, htrace, hscope⟩

end RowFeed

namespace Plan

/-! ## Reading joins -/

variable {ss : Splitters} {left right : Plan} {lefts rights : List Row}

/-- The equality join brings the pairs of equal keys: every left row, in order, with every right row
of its key, in order. -/
theorem equalsJoin_pairs (hlayered : ss.Layered) (hleft : left.ReadsTo ss lefts)
    (hright : right.ReadsTo ss rights) (hlayout : left.layout = right.layout) (allColumns : Bool)
    (hlefts : SortedOn (joinWidth allColumns) lefts)
    (hrights : SortedOn (joinWidth allColumns) rights) :
    ∃ plan out, equalsJoin? left right allColumns = .ok plan ∧ plan.Brings ss out ∧
      (out.map fun x => (x.line, x.trace, x.scope)) = lefts.flatMap fun l =>
        let key := l.keyOf (joinWidth allColumns)
        (rights.filter fun r => r.keyOf (joinWidth allColumns) = key).map fun r =>
          (l.line ++ r.line.drop key.length, l.trace ++ r.trace,
            if l.scope = .delta ∨ r.scope = .delta then .delta else .base) := by
  -- sorted inputs are joined group by group, which gives the pairs in the order of the left rows
  have hyields : (equalsJoin left right allColumns).Yields ss
      (RowFeed.equalPairs (joinWidth allColumns) lefts rights) := by
    rw [Yields, feedIn, meaning, (hleft.yields hlayered).meaning_eq,
      (hright.yields hlayered).meaning_eq, ← RowFeed.equalsJoin_ofList hlefts hrights]
    rfl
  refine ⟨_, _, if_pos hlayout, hyields.brings hlayered ?_, ?_⟩
  · exact List.forall_mem_append.2 ⟨hleft.reads, hright.reads⟩
  · rw [RowFeed.equalPairs, List.map_flatMap]
    refine List.flatMap_congr fun l _ => ?_
    rw [List.map_map]
    exact List.map_congr_left fun r _ => RowFeed.fields_combine _ l r

/-- By targets, two left and two right rows of different widths have one key. By whole lines, only
the repeated lines of one value pair up, and a right row has no columns left to add. -/
theorem equalsJoin_pairs_groups :
    let lefts : List Row := [⟨.int 1, [.int 9], .base, [⟨1⟩]⟩, ⟨.int 1, [], .delta, [⟨2⟩]⟩,
      ⟨.int 2, [], .base, []⟩]
    let rights : List Row := [⟨.int 1, [.int 5], .base, [⟨3⟩]⟩, ⟨.int 1, [], .base, [⟨4⟩, ⟨5⟩]⟩,
      ⟨.int 3, [], .base, []⟩]
    let lefts' : List Row := [⟨.int 1, [], .base, [⟨1⟩]⟩, ⟨.int 1, [.int 9], .base, [⟨2⟩]⟩,
      ⟨.int 1, [.int 9], .delta, []⟩]
    let rights' : List Row := [⟨.int 1, [.int 5], .base, [⟨3⟩]⟩, ⟨.int 1, [.int 9], .base, [⟨4⟩]⟩,
      ⟨.int 1, [.int 9], .base, [⟨5⟩]⟩]
    (∃ plan out, equalsJoin? (producer lefts) (producer rights) false = .ok plan ∧
      plan.Brings #[] out ∧ (out.map fun x => (x.line, x.trace, x.scope)) =
        [([.int 1, .int 9, .int 5], [⟨1⟩, ⟨3⟩], .base),
          ([.int 1, .int 9], [⟨1⟩, ⟨4⟩, ⟨5⟩], .base),
          ([.int 1, .int 5], [⟨2⟩, ⟨3⟩], .delta),
          ([.int 1], [⟨2⟩, ⟨4⟩, ⟨5⟩], .delta)]) ∧
    ∃ plan out, equalsJoin? (producer lefts') (producer rights') true = .ok plan ∧
      plan.Brings #[] out ∧ (out.map fun x => (x.line, x.trace, x.scope)) =
        [([.int 1, .int 9], [⟨2⟩, ⟨4⟩], .base), ([.int 1, .int 9], [⟨2⟩, ⟨5⟩], .base),
          ([.int 1, .int 9], [⟨4⟩], .delta), ([.int 1, .int 9], [⟨5⟩], .delta)] := by
  intro lefts rights lefts' rights'
  have hlayered : Splitters.Layered #[] := nofun
  refine ⟨?targets, ?lines⟩
  case targets =>
    obtain ⟨plan, out, hplan, hout, hpairs⟩ := equalsJoin_pairs hlayered
      (readsTo_producer hlayered lefts) (readsTo_producer hlayered rights) rfl false
      (by decide) (by decide)
    refine ⟨plan, out, hplan, hout, ?_⟩
    rw [hpairs]
    rfl
  case lines =>
    obtain ⟨plan, out, hplan, hout, hpairs⟩ := equalsJoin_pairs hlayered
      (readsTo_producer hlayered lefts') (readsTo_producer hlayered rights') rfl true
      (by decide) (by decide)
    refine ⟨plan, out, hplan, hout, ?_⟩
    rw [hpairs]
    rfl

/-- The inner join brings the targets that both inputs have, each of them once. -/
theorem innerJoin_intersects (hlayered : ss.Layered) (hleft : left.ReadsTo ss lefts)
    (hright : right.ReadsTo ss rights) (hlayout : left.layout = .aggregated)
    (hlayout' : right.layout = .aggregated) (hlefts : SortedOn (some 1) lefts)
    (hrights : SortedOn (some 1) rights) :
    ∃ plan out, innerJoin? left right = .ok plan ∧ plan.Brings ss out ∧
      (out.Pairwise fun x y => x.target.compare y.target = .lt) ∧
      (∀ t, t ∈ out.map Row.target ↔ t ∈ lefts.map Row.target ∧ t ∈ rights.map Row.target) ∧
      ∀ x ∈ out, RowFeed.Meets lefts rights x := by
  have hyields : (innerJoin left right).Yields ss (RowFeed.commonTargets lefts rights) := by
    rw [Yields, feedIn, meaning, (hleft.yields hlayered).meaning_eq,
      (hright.yields hlayered).meaning_eq, ← RowFeed.innerJoin_ofList hlefts hrights]
    rfl
  refine ⟨innerJoin left right, _, ?_, hyields.brings hlayered ?_,
    RowFeed.pairwise_commonTargets hlefts rights, fun _ => RowFeed.mem_targets_commonTargets,
    fun x => RowFeed.meets_of_mem⟩
  · have hfind : ([left, right].find? fun p => p.layout ≠ .aggregated) = none := by
      simp [hlayout, hlayout']
    rw [innerJoin?, hfind]
  · exact List.forall_mem_append.2 ⟨hleft.reads, hright.reads⟩

/-- Of the left rows of the common target only the first one counts. -/
theorem innerJoin_intersects_groups :
    let lefts : List Row := [⟨.int 1, [.int 9], .base, [⟨1⟩]⟩, ⟨.int 1, [], .delta, [⟨2⟩]⟩,
      ⟨.int 2, [], .base, []⟩]
    let rights : List Row := [⟨.int 1, [.int 5], .base, [⟨3⟩]⟩, ⟨.int 1, [], .base, [⟨4⟩, ⟨5⟩]⟩,
      ⟨.int 3, [], .base, []⟩]
    ∃ plan out, innerJoin? (producer lefts) (producer rights) = .ok plan ∧
      plan.Brings #[] out ∧
      ∃ x ∈ out, x.line = [.int 1] ∧ x.trace = [⟨1⟩, ⟨3⟩, ⟨4⟩, ⟨5⟩] ∧ x.scope ≠ .delta := by
  intro lefts rights
  have hlayered : Splitters.Layered #[] := nofun
  obtain ⟨plan, out, hplan, hout, -, htargets, hmeets⟩ := innerJoin_intersects hlayered
    (readsTo_producer hlayered lefts) (readsTo_producer hlayered rights) rfl rfl
    (by decide) (by decide)
  obtain ⟨x, hx, htarget⟩ := List.mem_map.1 ((htargets (.int 1)).2 (by decide))
  obtain ⟨hline, l, hfirst, htrace, hscope⟩ := hmeets x hx
  rw [htarget] at hline hfirst htrace hscope
  obtain rfl := Option.some.inj hfirst
  refine ⟨plan, out, hplan, hout, x, hx, hline, htrace, ?_⟩
  rw [ne_eq, hscope]
  decide

end Plan

end GraphShapes
