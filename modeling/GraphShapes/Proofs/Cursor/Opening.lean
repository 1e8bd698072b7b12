import GraphShapes.Proofs.Cursor.Operator

/-!
# Opening plans

With the right access to the splitters below, every plan is opened rightly (`Plan.opened_right`): the
cursor has the plan's meaning for its feed, and what is left to do is within what the plan's limits
allow for. The proof goes through the constructors as `Plan.opened` does.
-/

namespace GraphShapes

variable {around : Surroundings} {R : SplitterId → Prop} {access : Access}

namespace Lookahead

/-- At the beginning of a union, no row is in view. -/
theorem feeds_fresh (cursors : List Cursor) :
    feeds around (cursors.map fresh) = cursors.map fun c => c.feed around := by
  induction cursors with
  | nil => rfl
  | cons c cursors ih => exact congrArg _ ih

theorem allRead_fresh {started : SplitterId → Nat → Prop} {cursors : List Cursor}
    (h : ∀ c ∈ cursors, c.Reads R started) : AllRead R started (cursors.map fresh) := by
  induction cursors with
  | nil => trivial
  | cons c cursors ih =>
    obtain ⟨hc, hcursors⟩ := List.forall_mem_cons.1 h
    exact ⟨hc, ih hcursors⟩

theorem worksIn_fresh (view : Row → Nat) (cursors : List Cursor) :
    worksIn around view (cursors.map fresh) = (cursors.map fun c => c.work around).sum +
      (6 * (cursors.map fun c => (c.feed around).length).sum + cursors.length) := by
  induction cursors with
  | nil => rfl
  | cons c cursors ih =>
    rw [List.map_cons, worksIn, ih]
    simp only [fresh, workIn, Head.steps_unknown, List.map_cons, List.sum_cons, List.length_cons]
    omega

end Lookahead

namespace Cursor.Opened

variable {pool : Pool} {opened : Opened}

/-- An operator that is opened with its input. -/
theorem Right.map (hbounded : around.Bounded) {input plan : Plan}
    (h : Opened.Right around R input pool opened) {op : Cursor → Cursor} {f : RowFeed → RowFeed}
    {own : RowFeed → Nat} (hop : Operator around R op f own)
    (hmeaning : plan.meaning around.delivered = do return f (← input.meaning around.delivered))
    (hload : ∀ feed : RowFeed, feed.length ≤ input.limit around.limit →
      own feed + input.load around.limit ≤ plan.load around.limit) :
    Opened.Right around R plan pool (mapOpened op opened) := by
  obtain ⟨result, pool'⟩ := opened
  cases result with
  | error e =>
    obtain ⟨herror, htouches⟩ := h
    exact ⟨by rw [hmeaning, herror]; rfl, htouches⟩
  | ok c =>
    obtain ⟨hok, hmoves, hc, hwork⟩ := h
    have hload := hload _ (input.meaning_atMost hbounded _ hok)
    refine ⟨?_, hmoves, hop.reads c _ hc, ?_⟩
    · rw [hmeaning, hok, hop.feed]
      rfl
    · rw [hop.work]
      omega

/-- A merge is opened with its left input, and then its right one. -/
theorem Right.merging (hbounded : around.Bounded) {left right plan : Plan} (how : Merge)
    (h : Opened.Right around R left pool opened) {openRight : Pool → Opened}
    (hright : ∀ pool, pool.SoundOn around R →
      Opened.Right around R right pool (openRight pool))
    (hmeaning : plan.meaning around.delivered = do
      return how.whole (← left.meaning around.delivered) (← right.meaning around.delivered))
    (hload : plan.load around.limit = left.load around.limit + right.load around.limit +
      Plan.share 2 (left.limit around.limit + right.limit around.limit)) :
    Opened.Right around R plan pool (bothOpened (Cursor.merging how) opened openRight) := by
  obtain ⟨result, pool'⟩ := opened
  cases result with
  | error e =>
    obtain ⟨herror, htouches⟩ := h
    exact ⟨by rw [hmeaning, herror]; rfl, htouches⟩
  | ok l =>
    obtain ⟨hl, hmovesl, hreadsl, hworkl⟩ := h
    have hr := hright pool' hmovesl.sound
    simp only [bothOpened]
    generalize openRight pool' = opened' at hr ⊢
    obtain ⟨result, pool''⟩ := opened'
    cases result with
    | error e =>
      obtain ⟨hr, htouches⟩ := hr
      refine ⟨by rw [hmeaning, hl, hr]; rfl, ?_⟩
      exact (hmovesl.toTouches.trans htouches).trans ((l.close_closes pool'').touches R)
    | ok r =>
      obtain ⟨hr, hmovesr, hreadsr, hworkr⟩ := hr
      refine ⟨?_, hmovesl.trans hmovesr, ⟨hreadsl.grow hmovesr.grows, hreadsr⟩, ?_⟩
      · rw [hmeaning, hl, hr]
        cases how with
        | equals w => rfl
        | inner => rfl
        | anti => rfl
        | count test => exact congrArg Except.ok (Merge.countFeed_nil test _ _).symm
      · have hleft := left.meaning_atMost hbounded _ hl
        have hright := right.meaning_atMost hbounded _ hr
        simp only [Cursor.merging, Lookahead.fresh, Cursor.work, Lookahead.workIn, Phase.steps,
          Head.steps_unknown]
        rw [hload, Plan.share]
        omega

end Cursor.Opened

theorem Probe.opened_right (p : Probe) {pool : Pool} (hsound : pool.SoundOn around R) :
    Cursor.Opened.Right around R (.probe p) pool (p.opened pool) := by
  unfold Probe.opened
  cases hrefusal : p.refusal with
  | some e => exact ⟨by rw [Plan.meaning, Probe.meaning, hrefusal], .record R pool _⟩
  | none =>
    refine ⟨?_, .record hsound _, trivial, Nat.add_le_add_right (Nat.zero_le _) _⟩
    rw [Plan.meaning, Probe.meaning, hrefusal, Cursor.feed, if_neg Bool.false_ne_true,
      Probe.feedFrom_zero]

/-- A union is opened when all its inputs are, with no row in view. -/
theorem Plan.OpenedAllRight.union (hbounded : around.Bounded) {inputs : List Plan}
    {cursors : List Cursor} {pool pool' : Pool}
    (h : Plan.OpenedAllRight around R inputs [] pool (.ok cursors, pool')) :
    Cursor.Opened.Right around R (.union inputs) pool
      (.ok (.union (cursors.map Lookahead.fresh)), pool') := by
  obtain ⟨opened, rfl, hall, hmoves, hopened, hwork⟩ := h
  obtain ⟨hlimits, hlength⟩ := Plan.meanings_atMost hbounded inputs _ hall
  refine ⟨?_, hmoves, Lookahead.allRead_fresh hopened, ?_⟩
  · rw [Plan.meaning, hall]
    exact congrArg (fun feeds => Except.ok (RowFeed.mergeAll feeds))
      (Lookahead.feeds_fresh cursors).symm
  · rw [List.map_map] at hlimits
    rw [List.length_map] at hlength
    rw [Cursor.work, Lookahead.worksIn_fresh, Plan.load, Plan.share]
    simp only [Function.comp_def] at hlimits
    omega

mutual

theorem Plan.opened_right (hbounded : around.Bounded) (haccess : access.Right around R) :
    ∀ (plan : Plan) (pool : Pool), (∀ s ∈ plan.readSplitters, R s) → pool.SoundOn around R →
      Cursor.Opened.Right around R plan pool (plan.opened access pool)
  | .empty _, pool, _, hsound => ⟨rfl, .refl hsound, trivial, Nat.add_le_add_right (Nat.zero_le _) _⟩
  | .values _ _, pool, _, hsound =>
    ⟨rfl, .refl hsound, trivial, Nat.add_le_add_right (Nat.zero_le _) _⟩
  | .probe p, pool, _, hsound => p.opened_right hsound
  | .targetScan _, pool, _, hsound =>
    ⟨rfl, .refl hsound, trivial, Nat.add_le_add_right (Nat.le_add_left 1 1) _⟩
  | .reader s layout, pool, hreads, hsound =>
    haccess.start s layout pool (hreads s (List.mem_singleton_self s)) hsound
  | .valuesOf targets source path, pool, hreads, hsound => by
    refine (targets.opened_right hbounded haccess pool hreads hsound).map hbounded
      (Cursor.operator_values around R source path []) rfl fun feed hfeed => ?_
    rw [Plan.load, Plan.share]
    omega
  | .countValues targets vs _ test, pool, hreads, hsound =>
    (targets.opened_right hbounded haccess pool
      (fun s hs => hreads s (List.mem_append_left _ hs)) hsound).merging hbounded (.count test)
      (fun pool hsound => vs.opened_right hbounded haccess pool
        (fun s hs => hreads s (List.mem_append_right _ hs)) hsound) rfl rfl
  | .filter input label keep, pool, hreads, hsound => by
    refine (input.opened_right hbounded haccess pool hreads hsound).map hbounded
      (Cursor.operator_filter around R keep) rfl fun feed hfeed => ?_
    rw [Plan.load, Plan.share]
    omega
  | .trim input width, pool, hreads, hsound =>
    (input.opened_right hbounded haccess pool hreads hsound).map hbounded
      (Cursor.operator_mapped around R (Row.trim width)) rfl fun _ _ => Nat.le_of_eq (Nat.zero_add _)
  | .sort input, pool, hreads, hsound => by
    refine ⟨?_, .refl hsound, hreads, ?_⟩
    · rw [Plan.meaning, Cursor.feed]
      cases input.meaning around.delivered <;> rfl
    · simp only [Cursor.work, Plan.load, Plan.share]
      omega
  | .unique input width, pool, hreads, hsound => by
    refine (input.opened_right hbounded haccess pool hreads hsound).map hbounded
      (Cursor.operator_unique around R width []) rfl fun feed hfeed => ?_
    rw [Plan.load, Plan.share]
    omega
  | .union inputs, pool, hreads, hsound => by
    have hall := Plan.openedAll_right hbounded haccess inputs [] pool hreads hsound
    rw [Plan.opened]
    generalize Plan.openedAll access inputs [] pool = opened at hall ⊢
    obtain ⟨result, pool'⟩ := opened
    cases result with
    | error e =>
      obtain ⟨hall, htouches⟩ := hall
      exact ⟨by rw [Plan.meaning, hall]; rfl, htouches⟩
    | ok cursors => exact hall.union hbounded
  | .tag input shape, pool, hreads, hsound =>
    (input.opened_right hbounded haccess pool hreads hsound).map hbounded
      (Cursor.operator_mapped around R (Row.tag shape)) rfl fun _ _ => Nat.le_of_eq (Nat.zero_add _)
  | .relabel input _, pool, hreads, hsound => by
    have h := input.opened_right hbounded haccess pool hreads hsound
    rw [Plan.opened]
    generalize input.opened access pool = opened at h ⊢
    obtain ⟨result, pool'⟩ := opened
    cases result <;> exact h
  | .equalsJoin left right allColumns, pool, hreads, hsound =>
    (left.opened_right hbounded haccess pool
      (fun s hs => hreads s (List.mem_append_left _ hs)) hsound).merging hbounded
      (.equals (Plan.joinWidth allColumns))
      (fun pool hsound => right.opened_right hbounded haccess pool
        (fun s hs => hreads s (List.mem_append_right _ hs)) hsound) rfl rfl
  | .innerJoin left right, pool, hreads, hsound =>
    (left.opened_right hbounded haccess pool
      (fun s hs => hreads s (List.mem_append_left _ hs)) hsound).merging hbounded .inner
      (fun pool hsound => right.opened_right hbounded haccess pool
        (fun s hs => hreads s (List.mem_append_right _ hs)) hsound) rfl rfl
  | .antiJoin left right, pool, hreads, hsound =>
    (left.opened_right hbounded haccess pool
      (fun s hs => hreads s (List.mem_append_left _ hs)) hsound).merging hbounded .anti
      (fun pool hsound => right.opened_right hbounded haccess pool
        (fun s hs => hreads s (List.mem_append_right _ hs)) hsound) rfl rfl

theorem Plan.openedAll_right (hbounded : around.Bounded) (haccess : access.Right around R) :
    ∀ (plans : List Plan) (before : List Cursor) (pool : Pool),
      (∀ s ∈ Plan.allReadSplitters plans, R s) → pool.SoundOn around R →
        Plan.OpenedAllRight around R plans before pool (Plan.openedAll access plans before pool)
  | [], before, pool, _, hsound => ⟨[], by simp, rfl, .refl hsound, nofun, by simp [Plan.loads]⟩
  | p :: rest, before, pool, hreads, hsound => by
    have hp := p.opened_right hbounded haccess pool
      (fun s hs => hreads s (List.mem_append_left _ hs)) hsound
    rw [Plan.openedAll]
    generalize p.opened access pool = opened at hp ⊢
    obtain ⟨result, pool'⟩ := opened
    cases result with
    | error e =>
      obtain ⟨hp, htouches⟩ := hp
      refine ⟨by rw [Plan.meanings, hp]; rfl, ?_⟩
      exact htouches.trans ((Cursor.closeEach_closes before.reverse pool').touches R)
    | ok c =>
      obtain ⟨hp, hmoves, hc, hwork⟩ := hp
      have hrest := Plan.openedAll_right hbounded haccess rest (c :: before) pool'
        (fun s hs => hreads s (List.mem_append_right _ hs)) hmoves.sound
      simp only
      generalize Plan.openedAll access rest (c :: before) pool' = opened at hrest ⊢
      obtain ⟨result, pool''⟩ := opened
      cases result with
      | error e =>
        obtain ⟨hrest, htouches⟩ := hrest
        exact ⟨by rw [Plan.meanings, hp, hrest]; rfl, hmoves.toTouches.trans htouches⟩
      | ok cursors =>
        obtain ⟨opened, rfl, hrest, hmoves', hopened, hwork'⟩ := hrest
        refine ⟨c :: opened, by simp, by rw [Plan.meanings, hp, hrest]; rfl, hmoves.trans hmoves',
          ?_, ?_⟩
        · intro c' hc'
          rcases List.mem_cons.1 hc' with rfl | hc'
          · exact hc.grow hmoves'.grows
          · exact hopened c' hc'
        · simp only [List.map_cons, List.sum_cons, Plan.loads]
          omega

end

end GraphShapes
