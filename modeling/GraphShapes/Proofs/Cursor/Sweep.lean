import GraphShapes.Cursor.Run
import GraphShapes.Proofs.Cursor.Close
import Mathlib.Data.List.Count

/-!
# What sweeping leaves alone

Sweeping a pool releases splitters, which closes producers, and does nothing else
(`Pool.Releases`, `Pool.sweep_releases`). A splitter that is in use, directly or by way of the
supplies of others (`Pool.Reaches`), stays as it is (`Pool.sweep_of_reaches`).

Releasing serves nothing: the numbers of openings and of rows served under a name, which are counts
of events (`Pool.tally_opened`, `Pool.tally_served`), stay the same.
-/

namespace GraphShapes

/-- The splitter with another state of the plan behind it. -/
def Splitter.withSupply (splitter : Splitter) (supply : Supply) : Splitter :=
  { splitter with supply := supply }

@[simp]
theorem Splitter.supply_withSupply (splitter : Splitter) (supply : Supply) :
    (splitter.withSupply supply).supply = supply := rfl

/-- Whether an event is an attempt to open a producer of that name. -/
def Event.isOpening (name : String) : Event → Bool
  | opened p => p = name
  | refused p _ => p = name
  | _ => false

/-- Each serving of a row counts once. -/
theorem Tally.served_foldl (name : String) : ∀ (log : List Event) (t : Tally),
    (log.foldl (Tally.add name) t).served = t.served + log.count (.served name)
  | [], t => rfl
  | e :: log, t => by
    rw [List.foldl_cons, Tally.served_foldl name log, List.count_cons]
    cases e with
    | served p =>
      by_cases hp : p = name
      · simp [Tally.add, hp]
        omega
      · simp [Tally.add, hp]
    | opened p => simp only [Tally.add]; split <;> simp
    | refused p _ => simp only [Tally.add]; split <;> simp
    | closed p => simp only [Tally.add]; split <;> simp
    | brokeOff p _ => simp [Tally.add]
    | unreadable _ => simp [Tally.add]

/-- So does each opening. -/
theorem Tally.opened_foldl (name : String) : ∀ (log : List Event) (t : Tally),
    (log.foldl (Tally.add name) t).opened = t.opened + log.countP (Event.isOpening name)
  | [], t => rfl
  | e :: log, t => by
    rw [List.foldl_cons, Tally.opened_foldl name log, List.countP_cons]
    cases e with
    | opened p =>
      by_cases hp : p = name
      · simp [Tally.add, Event.isOpening, hp]
        omega
      · simp [Tally.add, Event.isOpening, hp]
    | refused p _ =>
      by_cases hp : p = name
      · simp [Tally.add, Event.isOpening, hp]
        omega
      · simp [Tally.add, Event.isOpening, hp]
    | served p => simp only [Tally.add]; split <;> simp [Event.isOpening]
    | closed p => simp only [Tally.add]; split <;> simp [Event.isOpening]
    | brokeOff p _ => simp [Tally.add, Event.isOpening]
    | unreadable _ => simp [Tally.add, Event.isOpening]

namespace Pool

/-- The rows served under a name are a count of events. -/
theorem tally_served (pool : Pool) (name : String) :
    (pool.tally name).served = pool.log.count (.served name) := by
  rw [tally, Tally.served_foldl, Nat.zero_add]

/-- So are the openings, whether they succeeded or not. -/
theorem tally_opened (pool : Pool) (name : String) :
    (pool.tally name).opened = pool.log.countP (Event.isOpening name) := by
  rw [tally, Tally.opened_foldl, Nat.zero_add]

/-- Nothing happened between two pools but that splitters gave up and producers were closed. -/
structure Releases (pool pool' : Pool) : Prop where
  budget : pool'.budget = pool.budget
  log : ∃ names : List String, pool'.log = names.map Event.closed ++ pool.log
  entry : ∀ t : SplitterId, pool'.splitters[t]? = pool.splitters[t]? ∨
    pool'.splitters[t]? = pool.splitters[t]?.map fun splitter => splitter.withSupply .ended

section Releases

variable {pool pool' pool'' : Pool}

theorem Releases.refl (pool : Pool) : pool.Releases pool := ⟨rfl, ⟨[], rfl⟩, fun _ => .inl rfl⟩

/-- Releasing in two steps is releasing. -/
theorem Releases.trans (h : pool.Releases pool') (h' : pool'.Releases pool'') :
    pool.Releases pool'' := by
  obtain ⟨names, hlog⟩ := h.log
  obtain ⟨names', hlog'⟩ := h'.log
  refine ⟨h'.budget.trans h.budget, ⟨names' ++ names, ?_⟩, fun t => ?_⟩
  · rw [hlog', hlog, List.map_append, List.append_assoc]
  · rcases h.entry t with hsame | hended <;> rcases h'.entry t with hsame' | hended'
    · exact .inl (hsame'.trans hsame)
    · rw [hended', hsame]
      exact .inr rfl
    · exact .inr (hsame'.trans hended)
    · rw [hended', hended, Option.map_map]
      exact .inr rfl

/-- Releasing opens nothing. -/
theorem Releases.countP_opening (h : pool.Releases pool') (name : String) :
    pool'.log.countP (Event.isOpening name) = pool.log.countP (Event.isOpening name) := by
  obtain ⟨names, hlog⟩ := h.log
  rw [hlog, List.countP_append, List.countP_map,
    List.countP_eq_zero.2 (by simp [Event.isOpening]), Nat.zero_add]

/-- Nor does it serve a row. -/
theorem Releases.count_served (h : pool.Releases pool') (name : String) :
    pool'.log.count (.served name) = pool.log.count (.served name) := by
  obtain ⟨names, hlog⟩ := h.log
  rw [hlog, List.count_append, List.count_eq_zero.2 (by simp), Nat.zero_add]

/-- Closing is releasing. -/
theorem Closes.releases (h : pool.Closes pool') : pool.Releases pool' :=
  ⟨h.budget, h.log, fun t => .inl (by rw [h.splitters])⟩

/-- Giving a splitter another supply leaves the other splitters alone. -/
theorem getElem?_setSupply (pool : Pool) (s : SplitterId) (supply : Supply) (t : SplitterId) :
    (pool.setSupply s supply).splitters[t]? =
      if s = t then pool.splitters[t]?.map fun splitter => splitter.withSupply supply
      else pool.splitters[t]? := Array.getElem?_modify

/-- A splitter may be released by ending its supply. -/
theorem setEnded_releases (pool : Pool) (s : SplitterId) :
    pool.Releases (pool.setSupply s .ended) := by
  refine ⟨rfl, ⟨[], rfl⟩, fun t => ?_⟩
  rw [getElem?_setSupply]
  split
  · exact .inr rfl
  · exact .inl rfl

/-- So it is done, after the supply was closed. -/
theorem release_releases (pool : Pool) (s : SplitterId) : pool.Releases (pool.release s) := by
  unfold release
  split
  · rename_i c _
    exact (c.close_closes pool).releases.trans (setEnded_releases _ s)
  · exact setEnded_releases pool s
  · exact .refl pool

/-- Sweeping the splitters below a number releases some of them. -/
theorem sweepBelow_releases : ∀ (n : Nat) (inUse : List SplitterId) (pool : Pool),
    pool.Releases (pool.sweepBelow n inUse)
  | 0, _, pool => .refl pool
  | s + 1, inUse, pool => by
    rw [sweepBelow]
    split
    · split
      · exact sweepBelow_releases s _ pool
      · exact sweepBelow_releases s inUse pool
    · exact (release_releases pool s).trans (sweepBelow_releases s inUse _)

/-- So does sweeping all of them. -/
theorem sweep_releases (pool : Pool) (inUse : List SplitterId) :
    pool.Releases (pool.sweep inUse) := sweepBelow_releases _ inUse pool

end Releases

/-- A splitter is in use, or the supply of a splitter with a larger number that is reached and lies
below a bound reads it. -/
inductive Reaches (pool : Pool) (bound : Nat) (inUse : List Nat) : Nat → Prop where
  | inUse {s : Nat} (h : s ∈ inUse) : Reaches pool bound inUse s
  | read {s t : Nat} {splitter : Splitter} (ht : Reaches pool bound inUse t)
      (hbound : t < bound) (hsplitter : pool.splitters[t]? = some splitter)
      (hread : s ∈ splitter.supply.readSplitters) (hlt : s < t) : Reaches pool bound inUse s

/-- Releasing a splitter leaves the others alone. -/
theorem release_other (pool : Pool) {s t : SplitterId} (h : s ≠ t) :
    (pool.release s).splitters[t]? = pool.splitters[t]? := by
  unfold release
  split
  · rename_i c _
    rw [getElem?_setSupply, if_neg h, (c.close_closes pool).splitters]
  · rw [getElem?_setSupply, if_neg h]
  · rfl

/-- The splitter at the bound is expanded. -/
theorem Reaches.expand {pool : Pool} {s t : Nat} {inUse : List Nat}
    {splitter : Splitter} (hs : pool.splitters[s]? = some splitter)
    (h : pool.Reaches (s + 1) inUse t) :
    pool.Reaches s (splitter.supply.readSplitters ++ inUse) t := by
  induction h with
  | inUse h => exact .inUse (List.mem_append_right _ h)
  | @read u t splitter' _ hbound hsplitter hread hlt ih =>
    by_cases hts : t = s
    · subst hts
      obtain rfl : splitter = splitter' := by rwa [hs, Option.some_inj] at hsplitter
      exact .inUse (List.mem_append_left _ hread)
    · exact .read ih (by omega) hsplitter hread hlt

/-- A splitter at the bound that is not in use leads nowhere. -/
theorem Reaches.skip {pool pool' : Pool} {s t : Nat} {inUse : List Nat}
    (hs : s ∉ inUse) (hother : ∀ t, s ≠ t → pool'.splitters[t]? = pool.splitters[t]?)
    (h : pool.Reaches (s + 1) inUse t) : s ≠ t ∧ pool'.Reaches s inUse t := by
  induction h with
  | inUse h => exact ⟨fun heq => hs (heq ▸ h), .inUse h⟩
  | @read u t splitter _ hbound hsplitter hread hlt ih =>
    refine ⟨by omega, .read ih.2 (by omega) ?_ hread hlt⟩
    rwa [hother t ih.1]

/-- A splitter that is in use stays as it is, by induction over the numbers from above. -/
theorem sweepBelow_of_reaches : ∀ (n : Nat) {inUse : List Nat} {pool : Pool} {t : Nat},
    pool.Reaches n inUse t → (pool.sweepBelow n inUse).splitters[t]? = pool.splitters[t]?
  | 0, _, _, _, _ => rfl
  | s + 1, inUse, pool, t, h => by
    rw [sweepBelow]
    split
    · split
      · rename_i splitter hs
        exact sweepBelow_of_reaches s (h.expand hs)
      · rename_i hs
        -- a splitter that is not there reads nothing
        refine sweepBelow_of_reaches s ?_
        clear * - h hs
        induction h with
        | inUse h => exact .inUse h
        | @read u t splitter _ hbound hsplitter hread hlt ih =>
          have hts : t ≠ s := by
            rintro rfl
            rw [hs] at hsplitter
            cases hsplitter
          exact .read ih (by omega) hsplitter hread hlt
    · rename_i hs
      obtain ⟨hst, h⟩ := h.skip hs fun t hst => pool.release_other hst
      rw [sweepBelow_of_reaches s h, pool.release_other hst]

/-- What is in use stays as it is. -/
theorem sweep_of_reaches {pool : Pool} {inUse : List SplitterId} {t : SplitterId}
    (h : pool.Reaches pool.splitters.size inUse t) :
    (pool.sweep inUse).splitters[t]? = pool.splitters[t]? := sweepBelow_of_reaches _ h

end Pool

end GraphShapes
