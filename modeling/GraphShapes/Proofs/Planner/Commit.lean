import GraphShapes.Proofs.Meaning.Incremental
import GraphShapes.Proofs.Planner.View
import GraphShapes.Proofs.Transaction.Views

/-!
# How a pass over a commit sees its data

The delta of a commit holds every statement in which the data before and after it differ
(`Transaction.mem_after_iff`). So a target that neither a selector's mark nor a changed statement on
the path leads to was a target before, and has the values that it had: the view of an incremental
pass follows the commit (`Transaction.view_follows`).

Into an empty store a commit only adds. Then every selected target that the pass looks at is marked,
on whatever path it is looked at, and a pass without candidates sees the same targets everywhere
(`Transaction.restricted_or_even`).
-/

namespace GraphShapes

namespace Target

variable {G side : Store} {target : Target} {x : Term}

/-- Because of the statement, the selector picks the term. -/
def picksBy (target : Target) (x : Term) (st : Statement) : Prop :=
  match target with
  | instancesOf c => st.predicate = Term.rdfType ∧ st.object = c ∧ st.subject = x
  | nodes _ => False
  | subjectsOf p => st.predicate = p ∧ st.subject = x
  | objectsOf p => st.predicate = p ∧ st.object = x

/-- Is the term listed by the selector? -/
def lists (target : Target) (x : Term) : Prop :=
  match target with
  | nodes listed => x ∈ listed
  | _ => False

theorem mem_picks_iff : x ∈ target.picks G ↔
    target.lists x ∨ ∃ st ∈ G.toList, target.picksBy x st := by
  cases target with
  | nodes listed => simp [picks, lists, picksBy]
  | instancesOf c => simp [picks, lists, picksBy, and_assoc]
  | subjectsOf p => simp [picks, lists, picksBy, and_assoc]
  | objectsOf p => simp [picks, lists, picksBy, and_assoc]

theorem mem_marks_iff : x ∈ target.marks side ↔
    (target.lists x ∧ side.mentions x = true) ∨ ∃ st ∈ side.toList, target.picksBy x st := by
  cases target with
  | nodes listed => simp [marks, lists, picksBy]
  | instancesOf c => simp [marks, picks, lists, picksBy, and_assoc]
  | subjectsOf p => simp [marks, picks, lists, picksBy, and_assoc]
  | objectsOf p => simp [marks, picks, lists, picksBy, and_assoc]

end Target

namespace Delta

variable {delta : Delta} {target : Target} {x : Term}

/-- A changed statement because of which a selector picks a term marks it. -/
theorem marks_of_changes {st : Statement} (h : delta.Changes st) (hp : target.picksBy x st) :
    delta.Marks target x := by
  rcases h with h | h
  · exact .inl (Target.mem_marks_iff.2 (.inr ⟨st, h, hp⟩))
  · exact .inr (Target.mem_marks_iff.2 (.inr ⟨st, h, hp⟩))

/-- A listed term that a changed statement mentions is marked. -/
theorem marks_of_mentions {st : Statement} (hl : target.lists x) (h : delta.Changes st)
    (hx : st.subject = x ∨ st.object = x) : delta.Marks target x := by
  have hmentions : ∀ side : Store, st ∈ side.toList → side.mentions x = true := fun side hm =>
    List.any_eq_true.2 ⟨st, hm, by simpa using hx⟩
  rcases h with hm | hm
  · exact .inl (Target.mem_marks_iff.2 (.inl ⟨hl, hmentions _ hm⟩))
  · exact .inr (Target.mem_marks_iff.2 (.inl ⟨hl, hmentions _ hm⟩))

/-- A listed term that a changed statement on a path starts from is marked. -/
theorem marks_of_starts {path : Option Path} (hl : target.lists x) (h : delta.Starts path x) :
    delta.Marks target x := by
  obtain ⟨p, -, st, hst, hlinks⟩ := h
  have hfocus := (Path.links_iff.1 hlinks).2
  refine marks_of_mentions hl hst ?_
  cases p with
  | predicate r => exact .inl hfocus
  | inverse r => exact .inr hfocus

end Delta

/-- Two graphs with the same statements on a path from a target have the same list of them. -/
theorem Store.linked_congr {G G' : Store} {p : Path} {t : Term}
    (h : ∀ st, p.links t st = true → (st ∈ G.toList ↔ st ∈ G'.toList)) :
    G.linked p t = G'.linked p t := by
  have hasc : ∀ s : Store, Ordered.Ascending Statement.compare (s.linked p t) := fun s =>
    List.Pairwise.filter _ s.ascending
  refine (hasc G).eq_of_mem_iff (hasc G') fun st => ?_
  unfold linked
  rw [List.mem_filter, List.mem_filter]
  exact and_congr_left fun hlinks => h st hlinks

namespace Transaction

variable {before added removed : Store} {st : Statement}

/-- What the delta does not hold is in the data after the commit exactly if it was there before. -/
theorem mem_after_iff (h : ¬(ofChange before added removed).delta.Changes st) :
    st ∈ (ofChange before added removed).after.store.toList ↔ st ∈ before.toList := by
  rw [Delta.Changes, not_or] at h
  rw [mem_after]
  constructor
  · intro hor
    rcases hor with ⟨hm, -⟩ | hm
    · exact hm
    · exact absurd hm h.1
  · exact fun hm => .inl ⟨hm, h.2⟩

/-- Into an empty store a commit only adds. -/
theorem changes_of_mem_after (he : before.isEmpty = true)
    (h : st ∈ (ofChange before added removed).after.store.toList) :
    (ofChange before added removed).delta.Changes st := by
  rcases mem_after.1 h with ⟨hm, -⟩ | hm
  · exact absurd hm (Store.isEmpty_iff.1 he st)
  · exact .inl hm

/-- The context of the incremental pass over the commit. -/
abbrev context (before added removed : Store) (config : Config) : Context :=
  .incremental (ofChange before added removed) config

theorem reliable_context (config : Config) : (context before added removed config).Reliable := by
  refine ⟨Source.reliable_ofStore _, fun delta hd => ?_⟩
  unfold Context.restriction at hd
  split at hd
  · cases hd
  · obtain rfl := Option.some.inj hd
    exact delta_reliable

/-- The data as that pass sees it. -/
abbrev view (before added removed : Store) (config : Config) (targets : List Target) : View :=
  (context before added removed config).view targets (reliable_context config)

section View

variable {config : Config} (hc : config.validateAll = false) {targets : List Target}
  {path : Option Path} {x : Term}
include hc

theorem restriction_context :
    (context before added removed config).restriction =
      some (ofChange before added removed).delta := by
  unfold Context.restriction
  exact if_neg (by rw [show (Context.incremental _ config).config = config from rfl, hc]; nofun)

theorem concerns_iff : (context before added removed config).Concerns targets path x ↔
    (∃ t ∈ targets, (ofChange before added removed).delta.Marks t x) ∨
      (ofChange before added removed).delta.Starts path x := by
  unfold Context.Concerns
  rw [restriction_context hc]
  exact ⟨fun h => h _ rfl, fun h delta hd => Option.some.inj hd ▸ h⟩

/-- A commit that marks a target bears on every path. -/
theorem bears_of_marks
    (h : ∃ t ∈ targets, ∃ x, (ofChange before added removed).delta.Marks t x)
    (path : Option Path) : (view before added removed config targets).bears path = true := by
  refine ((reliable_context config).bears_eq targets path).2 fun delta hd => ?_
  rw [restriction_context hc] at hd
  exact .inl (Option.some.inj hd ▸ h)

/-- What an incremental pass does not look at is as it was before the commit. -/
theorem view_follows (targets : List Target) :
    (view before added removed config targets).Follows
        ((ofChange before added removed).after.store.selection targets) before
        (before.selection targets) where
  seen path x hx := (Context.mem_view_targets.1 hx).1
  unseen {path t} ht hunseen := by
    have hconcerns : ¬(context before added removed config).Concerns targets path t :=
      fun hconcerns => hunseen (Context.mem_view_targets.2 ⟨ht, hconcerns⟩)
    rw [concerns_iff hc, not_or] at hconcerns
    obtain ⟨hmarks, hstarts⟩ := hconcerns
    constructor
    · -- the statement because of which the target is selected is not new
      obtain ⟨target, htarget, hpicks⟩ := TargetScan.mem_selection.1 ht
      refine TargetScan.mem_selection.2 ⟨target, htarget, Target.mem_picks_iff.2 ?_⟩
      rcases Target.mem_picks_iff.1 hpicks with hl | ⟨st, hst, hp⟩
      · exact .inl hl
      · have hsame := mem_after_iff fun hch =>
          hmarks ⟨target, htarget, Delta.marks_of_changes hch hp⟩
        exact .inr ⟨st, hsame.1 hst, hp⟩
    · -- and no statement on the path from it was changed
      intro p hp
      refine Store.linked_congr fun st hlinks => mem_after_iff fun hch => ?_
      exact hstarts ⟨p, hp, st, hch, hlinks⟩

/-- In a commit into an empty store, a target that the pass looks at is marked. -/
theorem marked_of_concerns (he : before.isEmpty = true)
    (ht : x ∈ (ofChange before added removed).after.store.selection targets)
    (hx : (context before added removed config).Concerns targets path x) :
    ∃ t ∈ targets, (ofChange before added removed).delta.Marks t x := by
  rcases (concerns_iff hc).1 hx with hmarks | hstarts
  · exact hmarks
  · obtain ⟨target, htarget, hpicks⟩ := TargetScan.mem_selection.1 ht
    refine ⟨target, htarget, ?_⟩
    -- a listed target is mentioned by the statement that starts from it, and the statement because
    -- of which another one is selected is new
    rcases Target.mem_picks_iff.1 hpicks with hl | ⟨st, hst, hp⟩
    · exact Delta.marks_of_starts hl hstarts
    · exact Delta.marks_of_changes (changes_of_mem_after he hst) hp

/-- A pass that does not look for candidates sees the same targets everywhere. -/
theorem restricted_or_even (targets : List Target) :
    (view before added removed config targets).restricted = true ∨
      (view before added removed config targets).Even := by
  cases he : before.isEmpty with
  | false => exact .inl (congrArg not he)
  | true =>
    refine .inr ?_
    by_cases hmarks : ∃ t ∈ targets, ∃ x, (ofChange before added removed).delta.Marks t x
    · -- the marked targets are seen on every path
      have hseen : ∀ path x, x ∈ (view before added removed config targets).targets path ↔
          x ∈ (ofChange before added removed).after.store.selection targets ∧
            ∃ t ∈ targets, (ofChange before added removed).delta.Marks t x := by
        intro path x
        refine Context.mem_view_targets.trans (and_congr_right fun ht => ?_)
        exact ⟨marked_of_concerns hc he ht, fun hm => (concerns_iff hc).2 (.inl hm)⟩
      exact .inl ⟨_, fun path => Finset.ext fun x => (hseen path x).trans (hseen none x).symm,
        bears_of_marks hc hmarks⟩
    · -- nothing is marked, so nothing is seen
      refine .inr fun path => Finset.eq_empty_of_forall_notMem fun x hx => ?_
      obtain ⟨ht, hconcerns⟩ := Context.mem_view_targets.1 hx
      obtain ⟨t, htm, hm⟩ := marked_of_concerns hc he ht hconcerns
      exact hmarks ⟨t, htm, x, hm⟩

end View

end Transaction

end GraphShapes
