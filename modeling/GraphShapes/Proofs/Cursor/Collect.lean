import GraphShapes.Proofs.Cursor.Allotted
import GraphShapes.Proofs.Cursor.Supply

/-!
# Running a plan

The meaning of a plan is what running it brings: a plan that is opened among the splitters that were
allotted, read step by step to its end and closed brings the rows of its feed, or the failure that
breaks it off (`Pool.collect_ofSplitters`). The budget of the pool is never used up before.
-/

namespace GraphShapes

variable {around : Surroundings} {R : SplitterId → Prop} {access : Access}

/-- A cursor that is read to the end brings what is left of its feed, if it may take enough steps. -/
theorem Cursor.drainWithin_right (hbounded : around.Bounded) (haccess : access.Right around R) :
    ∀ (fuel : Nat) (c : Cursor) (arrived : List Row) (pool : Pool), c.Reads R pool.StartedAt →
      pool.SoundOn around R →
      c.work around + (c.feed around).length + pool.work around < fuel →
        (drainWithin access fuel c arrived pool).1 =
          (c.feed around).toExcept.map (arrived.reverse ++ ·)
  | 0, _, _, _, _, _, hfuel => absurd hfuel (Nat.not_lt_zero _)
  | fuel + 1, c, arrived, pool, hreads, hsound, hfuel => by
    -- each step uses up some of the work that bounds the fuel, or brings a row
    have h := c.step_right hbounded haccess pool hreads hsound
    rw [drainWithin]
    generalize c.step access pool = step at h ⊢
    obtain ⟨outcome, c', pool'⟩ := step
    cases outcome with
    | row r =>
      obtain ⟨hrow, h⟩ := h
      have hwork := h.work
      rw [hrow, Feed.length] at hfuel
      rw [hrow, Feed.toExcept]
      simp only
      rw [Cursor.drainWithin_right hbounded haccess fuel c' (r :: arrived) pool' h.reads h.sound
        (by omega)]
      cases (c'.feed around).toExcept with
      | error e => rfl
      | ok rows => simp [Except.map]
    | busy =>
      obtain ⟨hsame, h⟩ := h
      have hwork := h.work
      rw [hsame] at hfuel ⊢
      exact Cursor.drainWithin_right hbounded haccess fuel c' arrived pool' h.reads h.sound (by omega)
    | ended =>
      rw [h.1, Feed.toExcept]
      simp [Except.map]
    | failed e =>
      rw [h.1, Feed.toExcept]
      rfl

namespace Pool

/-- Running a plan brings what the plan means. -/
theorem collect_ofSplitters {splitters : Splitters} (hlayered : splitters.Layered) {plan : Plan}
    (hreads : ∀ s ∈ plan.readSplitters, s < splitters.size) :
    ((ofSplitters splitters).collect plan).1 = plan.collect splitters := by
  have hallotted := hlayered.allotted
  have hbounded := hallotted.bounded
  have haccess := access_right hbounded (ofSplitters splitters).splitters.size
    (fun s => s < splitters.size) fun s hs => hallotted.size ▸ hs
  have hsound : ((ofSplitters splitters).prepare plan).SoundOn splitters.around
      fun s => s < splitters.size := by
    intro s hs
    obtain ⟨hentry, hdelivered⟩ := hallotted.entry s _ (Array.getElem?_eq_getElem hs)
    refine ⟨_, hentry, rfl, hdelivered, fun t ht => ?_⟩
    have hts : t < s := hlayered s _ (Array.getElem?_eq_getElem hs) t ht
    exact ⟨Nat.lt_trans hts hs, hts⟩
  have h := plan.opened_right hbounded haccess _ hreads hsound
  have hcollect : plan.collect splitters =
      plan.meaning splitters.around.delivered >>= Feed.toExcept := rfl
  rw [collect, openPlan, hcollect]
  generalize plan.opened _ _ = opened at h ⊢
  obtain ⟨result, pool'⟩ := opened
  cases result with
  | error e =>
    rw [h.1]
    rfl
  | ok c =>
    obtain ⟨hmeaning, hmoves, hc, hwork⟩ := h
    have hlimit := plan.meaning_atMost hbounded _ hmeaning
    have haffordable := hallotted.affordable
    have hbudget := hmoves.budget
    have hsame : ((ofSplitters splitters).prepare plan).work splitters.around =
        (ofSplitters splitters).work splitters.around := rfl
    have hprepared : ((ofSplitters splitters).prepare plan).budget =
        (ofSplitters splitters).budget + plan.load splitters.around.limit +
          plan.limit splitters.around.limit := rfl
    have haccess' : (access pool'.splitters.size).Right splitters.around
        fun s => s < splitters.size := by
      rw [hmoves.size]
      exact haccess
    rw [hmeaning]
    show (c.drain pool').1 = (c.feed splitters.around).toExcept
    rw [Cursor.drain, c.drainWithin_right hbounded haccess' _ [] pool' hc hmoves.sound (by omega)]
    cases (c.feed splitters.around).toExcept <;> rfl

end Pool

end GraphShapes
