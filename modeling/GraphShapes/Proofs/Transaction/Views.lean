import GraphShapes.Proofs.Store.History
import GraphShapes.Proofs.Target.Selection
import GraphShapes.Transaction

/-!
# The views of a commit

A commit is given by a store and two sets of statements, those to remove and those to add, and the
three may overlap in any way. `Transaction.ofChange` keeps of each set what the commit makes
effective (`mem_delta_removed`, `mem_delta_added`) and replays just that on the store
(`mem_after`).

`Transaction.ofChange_consistent`: nothing is lost that way. The data after the commit is what the
two given sets make of the store, the delta holds every statement that the commit gains or loses,
and the one thing that it holds beyond them is a statement that was there and is taken out and put
back by the same commit.
-/

namespace GraphShapes

/-- A source that answers every scan, from a store that presents a set of statements. -/
structure Source.Presents (s : Source) (holds : Statement → Prop) : Prop where
  reliable : s.Reliable
  store : s.store.Presents holds

namespace Store

variable {s : Store} {holds : Statement → Prop}

/-- A store presents the statements that it holds. -/
theorem presents_of_mem_iff (h : ∀ st, st ∈ s.toList ↔ holds st) : s.Presents holds where
  bySubject := h
  byPredicate st := (s.agree st).trans (h st)
  scan p st := by rw [mem_scan, h]
  ordered _ := ascending_scan
  hasMatch p := by
    rw [hasMatch_iff]
    simp only [h]

theorem presents_ofStore (h : ∀ st, st ∈ s.toList ↔ holds st) :
    (Source.ofStore s).Presents holds :=
  ⟨Source.reliable_ofStore s, presents_of_mem_iff h⟩

end Store

namespace Transaction

variable {before added removed : Store} {st : Statement}

/-! ## What the commit makes effective -/

/-- Only what is there can be removed. -/
theorem mem_delta_removed (added : Store) :
    st ∈ (ofChange before added removed).delta.removed.store.toList ↔
      st ∈ before.toList ∧ st ∈ removed.toList := by
  show st ∈ (effectiveRemovals before removed).toList ↔ _
  rw [effectiveRemovals, Store.mem_ofList, List.mem_filter, Store.contains_iff_mem, and_comm]

/-- What is there is added only if the commit removes it. -/
theorem mem_delta_added :
    st ∈ (ofChange before added removed).delta.added.store.toList ↔
      st ∈ added.toList ∧ (st ∉ before.toList ∨ st ∈ removed.toList) := by
  show st ∈ (effectiveAdditions before added (effectiveRemovals before removed)).toList ↔ _
  rw [effectiveAdditions, Store.mem_ofList, List.mem_filter, Bool.or_eq_true, Bool.not_eq_true',
    Store.contains_iff_mem, ← Bool.not_eq_true, Store.contains_iff_mem]
  refine and_congr_right fun _ => ?_
  have hgone : st ∈ (effectiveRemovals before removed).toList ↔ _ :=
    mem_delta_removed added
  by_cases hb : st ∈ before.toList
  · rw [hgone, and_iff_right hb]
  · exact iff_of_true (.inl hb) (.inl hb)

/-- The delta is replayed on the store, its removals first. -/
theorem mem_after : st ∈ (ofChange before added removed).after.store.toList ↔
    (st ∈ before.toList ∧ st ∉ (ofChange before added removed).delta.removed.store.toList) ∨
      st ∈ (ofChange before added removed).delta.added.store.toList := by
  show st ∈ (Store.extend _ _).toList ↔ _
  rw [Store.mem_extend, Store.mem_foldl_remove]
  exact Iff.rfl

/-- Replaying the delta comes to the same as replaying the two given sets. -/
theorem mem_after_iff_given : st ∈ (ofChange before added removed).after.store.toList ↔
    (st ∈ before.toList ∧ st ∉ removed.toList) ∨ st ∈ added.toList := by
  rw [mem_after, mem_delta_removed, mem_delta_added]
  by_cases hb : st ∈ before.toList <;> by_cases hr : st ∈ removed.toList <;> simp [hb, hr]

theorem delta_reliable : (ofChange before added removed).delta.Reliable :=
  ⟨Source.reliable_ofStore _, Source.reliable_ofStore _⟩

/-! ## What the commit changes -/

variable {tx : Transaction}

/-- The statement is new in the data after the commit. -/
def Gains (tx : Transaction) (before : Store) (st : Statement) : Prop :=
  st ∉ before.toList ∧ st ∈ tx.after.store.toList

/-- The statement is no longer in the data after the commit. -/
def Loses (tx : Transaction) (before : Store) (st : Statement) : Prop :=
  st ∈ before.toList ∧ st ∉ tx.after.store.toList

/-- The views fit the store and the two sets that the commit was given by. -/
structure Consistent (before added removed : Store) (tx : Transaction) : Prop where
  /-- The data after the commit is the store without the removals, with the additions. -/
  after : tx.after.Presents fun st =>
    (st ∈ before.toList ∧ st ∉ removed.toList) ∨ st ∈ added.toList
  /-- It is also the store with the delta replayed on it. -/
  replayed : tx.after.Presents fun st =>
    (st ∈ before.toList ∧ st ∉ tx.delta.removed.store.toList) ∨
      st ∈ tx.delta.added.store.toList
  additions : tx.delta.added.Presents fun st =>
    st ∈ added.toList ∧ (st ∉ before.toList ∨ st ∈ removed.toList)
  removals : tx.delta.removed.Presents fun st => st ∈ before.toList ∧ st ∈ removed.toList
  gains : ∀ st, tx.Gains before st → st ∈ tx.delta.added.store.toList
  loses : ∀ st, tx.Loses before st → st ∈ tx.delta.removed.store.toList
  /-- What the delta holds beyond that was there, and is both taken out and put back. -/
  idle : ∀ st,
    (st ∈ tx.delta.added.store.toList ∧ ¬tx.Gains before st) ∨
        (st ∈ tx.delta.removed.store.toList ∧ ¬tx.Loses before st) ↔
      st ∈ before.toList ∧ st ∈ added.toList ∧ st ∈ removed.toList
  baseEmpty : tx.baseEmpty = true ↔ ∀ st, st ∉ before.toList

/-- The additions cover what the data gains. -/
theorem mem_delta_added_of_gains (h : (ofChange before added removed).Gains before st) :
    st ∈ (ofChange before added removed).delta.added.store.toList := by
  obtain ⟨hb, ha⟩ := h
  rcases mem_after.1 ha with ⟨hm, -⟩ | hm
  · exact absurd hm hb
  · exact hm

/-- The removals cover what the data loses. -/
theorem mem_delta_removed_of_loses (h : (ofChange before added removed).Loses before st) :
    st ∈ (ofChange before added removed).delta.removed.store.toList := by
  obtain ⟨hb, ha⟩ := h
  by_contra hkept
  exact ha (mem_after.2 (.inl ⟨hb, hkept⟩))

/-- An addition changes nothing if it puts back what the commit removes. -/
theorem not_gains_iff (h : st ∈ (ofChange before added removed).delta.added.store.toList) :
    ¬(ofChange before added removed).Gains before st ↔
      st ∈ before.toList ∧ st ∈ removed.toList := by
  have hafter : st ∈ (ofChange before added removed).after.store.toList :=
    mem_after.2 (.inr h)
  obtain ⟨-, hnew⟩ := mem_delta_added.1 h
  rw [Gains, and_iff_left hafter, not_not]
  exact (and_iff_left_of_imp fun hb => hnew.resolve_left (not_not.2 hb)).symm

/-- A removal changes nothing if the commit adds the statement as well. -/
theorem not_loses_iff (h : st ∈ (ofChange before added removed).delta.removed.store.toList) :
    ¬(ofChange before added removed).Loses before st ↔ st ∈ added.toList := by
  obtain ⟨hb, hr⟩ := (mem_delta_removed added).1 h
  rw [Loses, and_iff_right hb, not_not, mem_after_iff_given]
  exact or_iff_right fun hkept => hkept.2 hr

/-- The commit holds beyond its changes what it takes out and puts back. -/
theorem idle_iff :
    (st ∈ (ofChange before added removed).delta.added.store.toList ∧
          ¬(ofChange before added removed).Gains before st) ∨
        (st ∈ (ofChange before added removed).delta.removed.store.toList ∧
          ¬(ofChange before added removed).Loses before st) ↔
      st ∈ before.toList ∧ st ∈ added.toList ∧ st ∈ removed.toList := by
  constructor
  · intro h
    rcases h with ⟨hnew, hidle⟩ | ⟨hgone, hidle⟩
    · obtain ⟨hb, hr⟩ := (not_gains_iff hnew).1 hidle
      exact ⟨hb, (mem_delta_added.1 hnew).1, hr⟩
    · obtain ⟨hb, hr⟩ := (mem_delta_removed added).1 hgone
      exact ⟨hb, (not_loses_iff hgone).1 hidle, hr⟩
  · intro h
    obtain ⟨hb, ha, hr⟩ := h
    have hgone := (mem_delta_removed added).2 ⟨hb, hr⟩
    exact .inr ⟨hgone, (not_loses_iff hgone).2 ha⟩

/-- The views of every commit fit what the commit was given by. -/
theorem ofChange_consistent (before added removed : Store) :
    (ofChange before added removed).Consistent before added removed where
  after := Store.presents_ofStore fun _ => mem_after_iff_given
  replayed := Store.presents_ofStore fun _ => mem_after
  additions := Store.presents_ofStore fun _ => mem_delta_added
  removals := Store.presents_ofStore fun _ => mem_delta_removed added
  gains _ := mem_delta_added_of_gains
  loses _ := mem_delta_removed_of_loses
  idle _ := idle_iff
  baseEmpty := Store.isEmpty_iff

/-- A statement that is taken out and put back leaves the data as it is, but not the delta empty. -/
example :
    let data := Store.ofList [⟨.iri "a", .iri "p", .int 1⟩]
    (ofChange data data data).after.store = data ∧
      (ofChange data data data).delta.isEmpty = false := by
  decide

end Transaction

end GraphShapes
