import GraphShapes.Proofs.Cursor.Opening

/-!
# What steps do to what is left

With the right access to the splitters below, every cursor steps rightly (`Cursor.step_right`). A union
looks at every row that is not in view before it takes the smallest one, and a merge looks where its
move says; a look at a row is a step of the cursor behind it. There is one lemma for each operator: it
steps rightly where its inputs do. The proof puts them together as `Cursor.step` does.
-/

namespace GraphShapes

variable {around : Surroundings} {R : SplitterId → Prop} {access : Access}

/-! ## Unions -/

namespace RowFeed

/-- Where a row or the end is in view, a failure of the other feed comes first. -/
theorem merge_shows_failed {head : Head} (hseen : head ≠ .unknown) (rest : RowFeed) (e : OpError) :
    merge (head.shows rest) (.failed e) = .failed e := by
  cases head with
  | unknown => exact absurd rfl hseen
  | ended => rfl
  | row r => rfl

end RowFeed

namespace Lookahead

variable (around R) in
/-- Where all rows are in view, the smallest is in front of the merge, and the merge of the others
comes behind it. -/
theorem takeLeast?_right (started : SplitterId → Nat → Prop) : ∀ ls : List Lookahead,
    (∀ l ∈ ls, l.head ≠ .unknown) →
      match takeLeast? ls with
      | none => RowFeed.mergeAll (feeds around ls) = .done
      | some (r, ls') =>
        RowFeed.mergeAll (feeds around ls) = .next r (RowFeed.mergeAll (feeds around ls')) ∧
          (AllRead R started ls → AllRead R started ls') ∧
          ∀ view, worksIn around view ls' ≤ worksIn around view ls
  | [], _ => rfl
  | .mk inner .unknown :: rest, hseen => absurd rfl (hseen _ List.mem_cons_self)
  | .mk inner .ended :: rest, hseen => by
    have ih := takeLeast?_right started rest fun l hl => hseen l (List.mem_cons_of_mem _ hl)
    simp only [takeLeast?, head]
    cases hleast : takeLeast? rest with
    | none =>
      rw [hleast] at ih
      exact ih
    | some found =>
      rw [hleast] at ih
      obtain ⟨hfeed, hreads, hwork⟩ := ih
      exact ⟨hfeed, fun h => ⟨h.1, hreads h.2⟩, fun view => Nat.add_le_add_left (hwork view) _⟩
  | .mk inner (.row r) :: rest, hseen => by
    have ih := takeLeast?_right started rest fun l hl => hseen l (List.mem_cons_of_mem _ hl)
    -- a row that is taken was worth more than a look at the next one
    have hpass : ∀ view, worksIn around view ((mk inner (.row r)).pass :: rest) ≤
        worksIn around view (.mk inner (.row r) :: rest) := by
      intro view
      simp only [pass, Lookahead.inner, worksIn, workIn, Head.steps]
      omega
    simp only [takeLeast?, head]
    cases hleast : takeLeast? rest with
    | none =>
      rw [hleast] at ih
      refine ⟨?_, id, hpass⟩
      show RowFeed.merge (.next r (inner.feed around)) (RowFeed.mergeAll (feeds around rest)) =
        .next r (RowFeed.merge (inner.feed around) (RowFeed.mergeAll (feeds around rest)))
      rw [ih]
      rfl
    | some found =>
      obtain ⟨s, rest'⟩ := found
      rw [hleast] at ih
      obtain ⟨hfeed, hreads, hwork⟩ := ih
      have hmerge : RowFeed.mergeAll (feeds around (.mk inner (.row r) :: rest)) =
          if (r.compare s).isLE then
            .next r (RowFeed.merge (inner.feed around) (RowFeed.mergeAll (feeds around rest)))
          else
            .next s (RowFeed.merge (.next r (inner.feed around))
              (RowFeed.mergeAll (feeds around rest'))) := by
        show RowFeed.merge (.next r (inner.feed around)) (RowFeed.mergeAll (feeds around rest)) = _
        rw [hfeed]
        rfl
      -- at a tie the earlier input goes first, in the cursor as in the merge
      by_cases hle : (r.compare s).isLE = true
      · simp only [hle, if_true]
        rw [hmerge, if_pos hle]
        exact ⟨rfl, id, hpass⟩
      · simp only [hle]
        rw [hmerge, if_neg hle]
        exact ⟨rfl, fun h => ⟨h.1, hreads h.2⟩, fun view => Nat.add_le_add_left (hwork view) _⟩

end Lookahead

/-! ## Stepping -/

namespace Cursor

variable {pool pool' : Pool} {c c' : Cursor}

theorem rows_right (rest : List Row) (hsound : pool.SoundOn around R) :
    Step.Right around R (.rows rest) pool (deliver rest .rows pool) := by
  cases rest with
  | nil => exact ⟨rfl, rfl, .refl hsound, trivial, Nat.le_refl _⟩
  | cons r rest => exact ⟨rfl, .refl hsound, trivial, Nat.le_refl _⟩

end Cursor

theorem Probe.step_right (p : Probe) (served : Nat) {pool : Pool} (hsound : pool.SoundOn around R) :
    Cursor.Step.Right around R (.probe p served false) pool (p.step served pool) := by
  have hfeed : (Cursor.probe p served false).feed around = p.feedFrom served := rfl
  have h := p.step_eq served pool
  cases hfront : p.feedFrom served with
  | done =>
    rw [hfront] at h
    rw [h]
    exact ⟨hfeed.trans hfront, hfeed.trans hfront, .refl hsound, trivial, Nat.le_refl _⟩
  | failed e =>
    rw [hfront] at h
    rw [h]
    exact ⟨hfeed.trans hfront, .record R pool _⟩
  | next r rest =>
    rw [hfront] at h
    obtain ⟨rfl, h⟩ := h
    rw [h]
    exact ⟨hfeed.trans hfront, .record hsound _, trivial, Nat.le_refl _⟩

theorem TargetScan.step_right (scan : TargetScan) {pool : Pool} (hsound : pool.SoundOn around R) :
    Cursor.Step.Right around R (.scan scan) pool (scan.step pool) := by
  have hfeed : (Cursor.scan scan).feed around = scan.rows := rfl
  unfold TargetScan.step
  unfold TargetScan.rows at hfeed
  cases hselect : scan.select with
  | error e =>
    rw [hselect] at hfeed
    exact ⟨hfeed, .record R pool _⟩
  | ok terms =>
    rw [hselect] at hfeed
    exact ⟨hfeed, .refl hsound, trivial, by simp only [Cursor.work]; omega⟩

namespace Lookahead

theorem passIf_mk (handedOn : Bool) (inner : Cursor) (head : Head) :
    (mk inner head).passIf handedOn = mk inner (head.passIf handedOn) := by
  cases handedOn <;> rfl

/-- A look at a row is a step of the cursor behind it. -/
theorem look_of_step {inner : Cursor} {pool : Pool}
    (h : Cursor.Step.Right around R inner pool (inner.step access pool)) :
    Look.Right around R (.mk inner .unknown) pool (look access (.mk inner .unknown) pool) := by
  rw [look]
  generalize inner.step access pool = step at h ⊢
  obtain ⟨outcome, inner', pool'⟩ := step
  cases outcome with
  | row r =>
    obtain ⟨hfeed, h⟩ := h
    refine ⟨hfeed.symm, h.toMoves, h.reads, fun view hview => ?_⟩
    have hwork := h.work
    have hr := hview r
    simp only [workIn, Head.steps, hfeed, Feed.length]
    omega
  | ended =>
    obtain ⟨hfeed, -, h⟩ := h
    refine ⟨hfeed.symm, h.toMoves, h.reads, fun view _ => ?_⟩
    have hwork := h.work
    simp only [workIn, Head.steps]
    omega
  | busy =>
    obtain ⟨hfeed, h⟩ := h
    refine ⟨hfeed.symm, h.toMoves, h.reads, fun view _ => ?_⟩
    have hwork := h.work
    simp only [workIn, Head.steps, hfeed]
    omega
  | failed e => exact h

/-- A look behind a lookahead that has been looked at. -/
theorem FirstLookRight.behind {inner : Cursor} {head : Head} {rest : List Lookahead} {pool : Pool}
    {looked : Option (Option OpError × List Lookahead × Pool)}
    (h : FirstLookRight around R rest pool looked) (hseen : head ≠ .unknown)
    (hreads : inner.Reads R pool.StartedAt) :
    FirstLookRight around R (.mk inner head :: rest) pool
      (looked.map fun (failure, rest, pool) => (failure, .mk inner head :: rest, pool)) := by
  cases looked with
  | none =>
    intro l hl
    rcases List.mem_cons.1 hl with rfl | hl
    · exact hseen
    · exact h l hl
  | some looked =>
    obtain ⟨failure, rest', pool'⟩ := looked
    cases failure with
    | none =>
      obtain ⟨hfeeds, hmoves, hreads', hwork⟩ := h
      refine ⟨congrArg (_ :: ·) hfeeds, hmoves, ⟨hreads.grow hmoves.grows, hreads'⟩,
        fun view hview => ?_⟩
      have hwork := hwork view hview
      simp only [worksIn]
      omega
    | some e =>
      obtain ⟨hfails, htouches⟩ := h
      refine ⟨?_, htouches⟩
      show RowFeed.merge (head.shows (inner.feed around)) (RowFeed.mergeAll _) = _
      rw [hfails]
      exact RowFeed.merge_shows_failed hseen _ e

end Lookahead

/-! ## Operators -/

namespace Cursor

variable {input : Cursor} {pool : Pool}

/-- Every target is replaced by its values. A source that cannot be read ends the operator. -/
theorem values_right (source : Source) (path : Option Path) {targets : Cursor}
    (h : Step.Right around R targets pool (targets.step access pool)) :
    Step.Right around R (.values targets source path []) pool
      ((Cursor.values targets source path []).step access pool) := by
  have hop := operator_values around R source path []
  rw [step_values]
  refine hop.handled rfl (fun _ => rfl) h fun target c pool' h => ?_
  cases hrows : Path.rowsOf source path target with
  | ok queue =>
    refine hop.skip (operator_values around R source path queue) h (fun rest => ?_) fun _ =>
      Nat.le_refl _
    rw [Feed.expand, hrows]
    rfl
  | error e =>
    refine failing_right ?_ (h.2.toTouches.trans (.record R pool' _))
    rw [hop.feed, h.1, Feed.expand, hrows]
    rfl

theorem filter_right (keep : Row → Bool)
    (h : Step.Right around R input pool (input.step access pool)) :
    Step.Right around R (.filter input keep) pool
      ((Cursor.filter input keep).step access pool) := by
  have hop := operator_filter around R keep
  rw [step_filter]
  refine hop.handled rfl (fun _ => rfl) h fun r c pool' h => ?_
  by_cases hkeep : keep r = true
  · rw [if_pos hkeep]
    refine hop.row hop h (fun rest => ?_) fun _ => Nat.le_succ _
    rw [Feed.filter, if_pos hkeep]
  · rw [if_neg hkeep]
    refine hop.skip hop h (fun rest => ?_) fun _ => Nat.le_refl _
    rw [Feed.filter, if_neg hkeep]

theorem mapped_right (change : Row → Row)
    (h : Step.Right around R input pool (input.step access pool)) :
    Step.Right around R (.mapped input change) pool
      ((Cursor.mapped input change).step access pool) := by
  have hop := operator_mapped around R change
  rw [step_mapped]
  exact hop.handled rfl (fun _ => rfl) h fun _ _ _ h =>
    hop.row hop h (fun _ => rfl) fun _ => Nat.le_refl _

theorem unique_right (width : Option Nat) (seen : List (List Term))
    (h : Step.Right around R input pool (input.step access pool)) :
    Step.Right around R (.unique input width seen) pool
      ((Cursor.unique input width seen).step access pool) := by
  have hop := operator_unique around R width seen
  rw [step_unique]
  refine hop.handled rfl (fun _ => rfl) h fun r c pool' h => ?_
  by_cases hseen : r.keyOf width ∈ seen
  · rw [if_pos hseen]
    refine hop.skip hop h (fun rest => ?_) fun _ => Nat.le_refl _
    rw [RowFeed.uniqueFrom, if_pos hseen]
  · rw [if_neg hseen]
    refine hop.row (operator_unique around R width (r.keyOf width :: seen)) h
      (fun rest => ?_) fun _ => Nat.le_succ _
    rw [RowFeed.uniqueFrom, if_neg hseen]

/-- A sort opens its input late, and fails if it cannot. -/
theorem unsorted_right (hbounded : around.Bounded) {plan : Plan}
    (h : Cursor.Opened.Right around R plan pool (plan.opened access pool)) :
    Step.Right around R (.unsorted plan) pool ((Cursor.unsorted plan).step access pool) := by
  have hfeed : (Cursor.unsorted plan).feed around =
      RowFeed.sorted (Feed.orFailed (plan.meaning around.delivered)) := rfl
  rw [Cursor.step]
  generalize plan.opened access pool = opened at h ⊢
  obtain ⟨result, pool'⟩ := opened
  cases result with
  | error e =>
    obtain ⟨herror, htouches⟩ := h
    rw [herror] at hfeed
    exact ⟨hfeed, htouches⟩
  | ok input =>
    obtain ⟨hok, hmoves, hinput, hwork⟩ := h
    rw [hok] at hfeed
    have hlimit : (input.feed around).length ≤ plan.limit around.limit :=
      plan.meaning_atMost hbounded _ hok
    refine ⟨hfeed, hmoves, hinput, ?_⟩
    simp only [Cursor.work]
    omega

/-- A sort keeps what arrives to itself; at the end of its input it has all of it in order. -/
theorem sorting_right (arrived : List Row)
    (h : Step.Right around R input pool (input.step access pool)) :
    Step.Right around R (.sorting input arrived) pool
      ((Cursor.sorting input arrived).step access pool) := by
  have hop := operator_sorting around R arrived
  rw [Cursor.step]
  generalize input.step access pool = step at h ⊢
  obtain ⟨outcome, input', pool'⟩ := step
  cases outcome with
  | row r =>
    refine hop.skip (operator_sorting around R (r :: arrived)) h (fun rest => ?_) fun _ =>
      Nat.le_refl _
    rw [List.reverse_cons, Feed.prepend_append]
    rfl
  | failed e =>
    refine hop.failing ?_ h _
    rw [RowFeed.sorted, Feed.toExcept_prepend]
    rfl
  | ended =>
    -- the sort has all rows now, and closes its input
    obtain ⟨hdone, -, h⟩ := h
    have hclose := input'.close_closes pool'
    refine ⟨?_, h.toMoves.trans (hclose.moves h.sound), trivial, ?_⟩
    · rw [hop.feed, hdone, RowFeed.sorted, Feed.toExcept_prepend, Feed.toExcept, Except.map,
        List.append_nil]
      rfl
    · have hwork := h.work
      have hclosed : (input'.close pool').2.work around = pool'.work around := hclose.work
      simp only [Cursor.work, hdone] at hwork ⊢
      omega
  | busy => exact hop.busy h

/-- A union looks at a row that is not in view, or takes the smallest one. -/
theorem union_right {inputs : List Lookahead}
    (hreads : Lookahead.AllRead R pool.StartedAt inputs) (hsound : pool.SoundOn around R)
    (h : Lookahead.FirstLookRight around R inputs pool
      (Lookahead.lookFirst access inputs pool)) :
    Step.Right around R (.union inputs) pool ((Cursor.union inputs).step access pool) := by
  rw [Cursor.step]
  generalize Lookahead.lookFirst access inputs pool = looked at h ⊢
  cases looked with
  | some looked =>
    obtain ⟨failure, inputs', pool'⟩ := looked
    cases failure with
    | none =>
      obtain ⟨hfeeds, hmoves, hreads', hwork⟩ := h
      exact ⟨(congrArg RowFeed.mergeAll hfeeds).symm, hmoves, hreads',
        hwork (fun _ => 5) fun _ => Nat.le_refl 5⟩
    | some e => exact failing_right h.1 h.2
  | none =>
    -- all rows that there are are in view
    have hleast := Lookahead.takeLeast?_right around R pool.StartedAt inputs h
    simp only
    cases htake : Lookahead.takeLeast? inputs with
    | none =>
      rw [htake] at hleast
      exact ⟨hleast, hleast, .refl hsound, hreads, Nat.le_refl _⟩
    | some taken =>
      obtain ⟨r, inputs'⟩ := taken
      rw [htake] at hleast
      obtain ⟨hfeed, hreads', hwork⟩ := hleast
      exact ⟨hfeed, .refl hsound, hreads' hreads, Nat.add_le_add_right (hwork _) _⟩

section Merging

variable (how : Merge) (phase : Phase) {left right : Lookahead} {look : Lookahead.Look}

/-- A merge may look at its left side where a failure of it is a failure of the merge. -/
theorem lookLeft_right (hright : right.Reads R pool.StartedAt)
    (hfails : ∀ e, how.feed phase (.failed e) (right.feed around) = .failed e)
    (h : Lookahead.Look.Right around R left pool look) :
    Step.Right around R (.merge how left right phase []) pool
      (handleLook (merge how · right phase []) look) := by
  obtain ⟨failure, left', pool'⟩ := look
  cases failure with
  | none =>
    obtain ⟨hfeed, hmoves, hreads', hwork⟩ := h
    have hwork := hwork _ (how.viewLeft_le phase)
    refine ⟨?_, hmoves, ⟨hreads', hright.grow hmoves.grows⟩, ?_⟩
    · simp only [Cursor.feed, hfeed]
    · simp only [Cursor.work]
      omega
  | some e =>
    have hfeed : how.feed phase (left.feed around) (right.feed around) = .failed e := by
      rw [h.1]
      exact hfails e
    show Step.Right around R _ pool ((Cursor.merge how left' right phase []).failing e pool')
    exact failing_right hfeed h.2

/-- A merge may look at its right side where a failure of it is a failure of the merge. -/
theorem lookRight_right (hleft : left.Reads R pool.StartedAt)
    (hfails : ∀ e, how.feed phase (left.feed around) (.failed e) = .failed e)
    (h : Lookahead.Look.Right around R right pool look) :
    Step.Right around R (.merge how left right phase []) pool
      (handleLook (merge how left · phase []) look) := by
  obtain ⟨failure, right', pool'⟩ := look
  cases failure with
  | none =>
    obtain ⟨hfeed, hmoves, hreads', hwork⟩ := h
    have hwork := hwork _ (how.viewRight_le phase)
    refine ⟨?_, hmoves, ⟨hleft.grow hmoves.grows, hreads'⟩, ?_⟩
    · simp only [Cursor.feed, hfeed]
    · simp only [Cursor.work]
      omega
  | some e =>
    have hfeed : how.feed phase (left.feed around) (right.feed around) = .failed e := by
      rw [h.1]
      exact hfails e
    show Step.Right around R _ pool ((Cursor.merge how left right' phase []).failing e pool')
    exact failing_right hfeed h.2

/-- A merge does what its move says: a look at a side is a step of the cursor there. -/
theorem merge_right {left right : Cursor} {lhead rhead : Head}
    (hreads : (Cursor.merge how (.mk left lhead) (.mk right rhead) phase []).Reads R pool.StartedAt)
    (hsound : pool.SoundOn around R) (hleft : Step.Right around R left pool (left.step access pool))
    (hright : Step.Right around R right pool (right.step access pool)) :
    Step.Right around R (.merge how (.mk left lhead) (.mk right rhead) phase []) pool
      ((Cursor.merge how (.mk left lhead) (.mk right rhead) phase []).step access pool) := by
  have hmove := how.move_right phase lhead rhead (left.feed around) (right.feed around)
  rw [step_merge]
  simp only [Lookahead.head]
  cases hm : how.move phase lhead rhead with
  | stop =>
    rw [hm] at hmove
    exact ⟨hmove, hmove, .refl hsound, hreads, Nat.le_refl _⟩
  | go delivered passLeft passRight phase' =>
    rw [hm] at hmove
    obtain ⟨hfeed, hsteps⟩ := hmove
    simp only [Lookahead.passIf_mk]
    refine ⟨hfeed, .refl hsound, hreads, ?_⟩
    simp only [Merge.steps] at hsteps
    simp only [Cursor.work, Lookahead.workIn]
    omega
  | lookLeft =>
    rw [hm] at hmove
    obtain ⟨rfl, hfails⟩ := hmove
    exact lookLeft_right how phase hreads.2 hfails (Lookahead.look_of_step hleft)
  | lookRight =>
    rw [hm] at hmove
    obtain ⟨rfl, hfails⟩ := hmove
    exact lookRight_right how phase hreads.1 hfails (Lookahead.look_of_step hright)

end Merging

theorem ahead_right (h : Step.Right around R input pool (input.step access pool)) :
    Step.Right around R (.ahead (.mk input .unknown)) pool
      ((Cursor.ahead (.mk input .unknown)).step access pool) := by
  have hop := operator_ahead around R
  rw [Cursor.step]
  generalize input.step access pool = step at h ⊢
  obtain ⟨outcome, input', pool'⟩ := step
  cases outcome with
  | row r => exact hop.row hop h (fun _ => rfl) fun _ => Nat.le_refl _
  | failed e => exact h
  | ended => exact hop.ended rfl h
  | busy => exact hop.busy h

end Cursor

/-! ## All cursors -/

mutual

theorem Cursor.step_right (hbounded : around.Bounded) (haccess : access.Right around R) :
    ∀ (c : Cursor) (pool : Pool), c.Reads R pool.StartedAt → pool.SoundOn around R →
      Cursor.Step.Right around R c pool (c.step access pool)
  | .rows rest, _, _, hsound => Cursor.rows_right rest hsound
  | .probe _ _ true, _, _, hsound => ⟨rfl, rfl, .refl hsound, trivial, Nat.le_refl _⟩
  | .probe p served false, _, _, hsound => p.step_right served hsound
  | .scan scan, _, _, hsound => scan.step_right hsound
  | .reader _ _ true, _, hreads, hsound => ⟨rfl, rfl, .refl hsound, hreads, Nat.le_refl _⟩
  | .reader s position false, pool, hreads, hsound =>
    haccess.read s position pool hreads.1 hreads.2 hsound
  | .values _ _ _ (_ :: _), _, hreads, hsound => ⟨rfl, .refl hsound, hreads, Nat.le_refl _⟩
  | .values targets source path [], pool, hreads, hsound =>
    Cursor.values_right source path (targets.step_right hbounded haccess pool hreads hsound)
  | .filter input keep, pool, hreads, hsound =>
    Cursor.filter_right keep (input.step_right hbounded haccess pool hreads hsound)
  | .mapped input change, pool, hreads, hsound =>
    Cursor.mapped_right change (input.step_right hbounded haccess pool hreads hsound)
  | .unique input width seen, pool, hreads, hsound =>
    Cursor.unique_right width seen (input.step_right hbounded haccess pool hreads hsound)
  | .unsorted plan, pool, hreads, hsound =>
    Cursor.unsorted_right hbounded (plan.opened_right hbounded haccess pool hreads hsound)
  | .sorting input arrived, pool, hreads, hsound =>
    Cursor.sorting_right arrived (input.step_right hbounded haccess pool hreads hsound)
  | .union inputs, pool, hreads, hsound =>
    Cursor.union_right hreads hsound
      (Lookahead.lookFirst_right hbounded haccess inputs pool hreads hsound)
  | .merge _ _ _ _ (_ :: _), _, hreads, hsound =>
    ⟨rfl, .refl hsound, hreads, Nat.le_refl _⟩
  | .merge how (.mk left _) (.mk right _) phase [], pool, hreads, hsound =>
    Cursor.merge_right how phase hreads hsound
      (left.step_right hbounded haccess pool hreads.1 hsound)
      (right.step_right hbounded haccess pool hreads.2 hsound)
  | .ahead (.mk _ (.row _)), _, hreads, hsound =>
    ⟨rfl, .refl hsound, ⟨Head.noConfusion, hreads.2⟩, Nat.le_refl _⟩
  | .ahead (.mk _ .ended), _, hreads, _ => absurd rfl hreads.1
  | .ahead (.mk inner .unknown), pool, hreads, hsound =>
    Cursor.ahead_right (inner.step_right hbounded haccess pool hreads.2 hsound)

theorem Lookahead.lookFirst_right (hbounded : around.Bounded) (haccess : access.Right around R) :
    ∀ (ls : List Lookahead) (pool : Pool), Lookahead.AllRead R pool.StartedAt ls →
      pool.SoundOn around R →
        Lookahead.FirstLookRight around R ls pool (Lookahead.lookFirst access ls pool)
  | [], _, _, _ => fun l hl => nomatch hl
  | .mk inner .unknown :: rest, pool, hreads, hsound => by
    have h := Lookahead.look_of_step (inner.step_right hbounded haccess pool hreads.1 hsound)
    rw [Lookahead.lookFirst]
    generalize Lookahead.look access (.mk inner .unknown) pool = look at h ⊢
    obtain ⟨failure, l, pool'⟩ := look
    cases failure with
    | none =>
      obtain ⟨hfeed, hmoves, hreads', hwork⟩ := h
      refine ⟨?_, hmoves, ⟨hreads', hreads.2.grow hmoves.grows⟩, fun view hview => ?_⟩
      · simp only [Lookahead.feeds, hfeed]
      · have hwork := hwork view hview
        simp only [Lookahead.worksIn]
        omega
    | some e =>
      refine ⟨?_, h.2⟩
      show RowFeed.merge ((Lookahead.mk inner .unknown).feed around) _ = _
      rw [h.1]
      rfl
  | .mk inner .ended :: rest, pool, hreads, hsound => by
    have hseen : Head.ended ≠ .unknown := Head.noConfusion
    have h := Lookahead.lookFirst_right hbounded haccess rest pool hreads.2 hsound
    rw [Lookahead.lookFirst_of_seen access inner hseen]
    exact h.behind hseen hreads.1
  | .mk inner (.row r) :: rest, pool, hreads, hsound => by
    have hseen : Head.row r ≠ .unknown := Head.noConfusion
    have h := Lookahead.lookFirst_right hbounded haccess rest pool hreads.2 hsound
    rw [Lookahead.lookFirst_of_seen access inner hseen]
    exact h.behind hseen hreads.1

end

end GraphShapes
