import GraphShapes.Proofs.Plan.Reads
import GraphShapes.Proofs.RowFeed.Join

/-!
# Targets looked up in a second input

Two operators go through the rows of their first input and decide for each of them, by the rows that
the second input has of the same target, whether it stays. The anti join keeps the rows whose target
the second input does not have (`antiJoin_subtracts`), and every negation rests on it. A count keeps
the targets whose values pass a test (`countValues_judges`): the test is given all values of the
target and no other value, also where the second input has targets that the first one lacks.

Both read the second input only once. So its targets have to ascend, and those of the first input
with them; a count, which keeps no value of the target before, needs each target only once.
-/

namespace GraphShapes.Plan

open Row (SortedOn)

variable {ss : Splitters}

section AntiJoin

variable {left right : Plan} {lefts rights : List Row}

/-- The anti join brings the left rows whose target the right input does not have, as they are. -/
theorem antiJoin_subtracts (hlayered : ss.Layered) (hleft : left.ReadsTo ss lefts)
    (hright : right.ReadsTo ss rights) (hlefts : SortedOn (some 1) lefts)
    (hrights : SortedOn (some 1) rights) :
    (antiJoin left right).Brings ss (lefts.filter fun l => l.target ∉ rights.map Row.target) := by
  have hmissing : RowFeed.missing lefts rights =
      lefts.filter fun l => l.target ∉ rights.map Row.target := by
    refine List.filter_congr fun l _ => ?_
    rw [Bool.eq_iff_iff, List.isEmpty_iff, decide_eq_true_eq, List.eq_nil_iff_forall_not_mem]
    simp only [RowFeed.mem_partners, List.mem_map, not_exists]
  have hyields : (antiJoin left right).Yields ss (RowFeed.missing lefts rights) := by
    rw [Yields, feedIn, meaning, (hleft.yields hlayered).meaning_eq,
      (hright.yields hlayered).meaning_eq, ← RowFeed.antiJoin_ofList hlefts hrights]
    rfl
  rw [← hmissing]
  exact hyields.brings hlayered (List.forall_mem_append.2 ⟨hleft.reads, hright.reads⟩)

/-- The right input ends between two left targets, and one splitter is read for both sides. -/
theorem antiJoin_subtracts_groups :
    let shared := producer [⟨.int 2, [.int 7], .base, []⟩, ⟨.int 2, [], .delta, []⟩]
    let lefts : List Row := [⟨.int 1, [.int 9, .int 8], .base, [⟨1⟩]⟩, ⟨.int 1, [], .delta, [⟨2⟩]⟩,
      ⟨.int 2, [], .base, []⟩, ⟨.int 2, [.int 3], .base, []⟩, ⟨.int 3, [], .delta, [⟨3⟩]⟩]
    Splitters.Layered #[shared] ∧
      (antiJoin (producer lefts) (.reader 0 .tripleBased)).Brings #[shared]
        [⟨.int 1, [.int 9, .int 8], .base, [⟨1⟩]⟩, ⟨.int 1, [], .delta, [⟨2⟩]⟩,
          ⟨.int 3, [], .delta, [⟨3⟩]⟩] ∧
      (antiJoin (.reader 0 .aggregated) (.reader 0 .aggregated)).Brings #[shared] [] := by
  intro shared lefts
  have hlayered : Splitters.Layered #[shared] := by decide
  have hshared := readsTo_producer hlayered
    [⟨.int 2, [.int 7], .base, []⟩, ⟨.int 2, [], .delta, []⟩]
  have hreader := fun layout => hshared.reader hlayered (s := 0) rfl layout
  exact ⟨hlayered,
    antiJoin_subtracts hlayered (readsTo_producer hlayered lefts) (hreader .tripleBased)
      (by decide) (by decide),
    antiJoin_subtracts hlayered (hreader .aggregated) (hreader .aggregated)
      (by decide) (by decide)⟩

end AntiJoin

section Count

variable {targets values : Plan} {ts vs : List Row}

/-- A count brings the targets whose values pass the test, each of them cut to its first column. The
values of a target are those of all rows of that target, in order. -/
theorem countValues_judges (hlayered : ss.Layered) (htargets : targets.ReadsTo ss ts)
    (hvalues : values.ReadsTo ss vs)
    (honce : ts.Pairwise fun a b => a.target.compare b.target = .lt)
    (hvs : SortedOn (some 1) vs) (label : String) (test : List Term → Bool) :
    (countValues targets values label test).Brings ss
      ((ts.filter fun t => test ((vs.filter fun v => v.target = t.target).filterMap Row.value?)).map
        fun t => { t with others := [] }) := by
  have hyields : (countValues targets values label test).Yields ss
      ((ts.filter fun t => test (RowFeed.valuesFor t.target vs)).map (Row.trim 1)) := by
    rw [Yields, feedIn, meaning, (htargets.yields hlayered).meaning_eq,
      (hvalues.yields hlayered).meaning_eq, ← RowFeed.countValues_ofList honce hvs]
    rfl
  exact hyields.brings hlayered (List.forall_mem_append.2 ⟨htargets.reads, hvalues.reads⟩)

/-- At least two values are asked for. Of the targets, one has a row without a value, one has no row
and one comes behind all of them; the values have targets of their own in between. -/
theorem countValues_judges_gaps :
    let ts : List Row := [⟨.int 1, [.int 9], .base, [⟨1⟩]⟩, ⟨.int 3, [], .delta, [⟨2⟩]⟩,
      ⟨.int 4, [], .base, []⟩, ⟨.int 7, [], .base, [⟨3⟩]⟩]
    let vs : List Row := [⟨.int 0, [.int 1], .base, []⟩, ⟨.int 1, [.int 5], .base, []⟩,
      ⟨.int 1, [], .base, []⟩, ⟨.int 2, [.int 5], .base, []⟩, ⟨.int 2, [.int 6], .base, []⟩,
      ⟨.int 4, [.int 8], .base, []⟩, ⟨.int 4, [.int 8], .base, []⟩, ⟨.int 5, [.int 5], .base, []⟩]
    let violated := (Constraint.minCount 2).violatedBy
    (countValues (producer ts) (producer vs) "minCount(2)" violated).Brings #[]
      [⟨.int 1, [], .base, [⟨1⟩]⟩, ⟨.int 3, [], .delta, [⟨2⟩]⟩, ⟨.int 7, [], .base, [⟨3⟩]⟩] := by
  intro ts vs violated
  have hlayered : Splitters.Layered #[] := nofun
  exact countValues_judges hlayered (readsTo_producer hlayered ts) (readsTo_producer hlayered vs)
    (by decide) (by decide) "minCount(2)" violated

end Count

end GraphShapes.Plan
