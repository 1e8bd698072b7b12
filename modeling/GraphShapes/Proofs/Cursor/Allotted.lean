import GraphShapes.Proofs.Cursor.Sound
import GraphShapes.Proofs.Planner.Mirror
import Mathlib.Data.List.Induction

/-!
# The splitters that were allotted

Splitters are allotted one after the other, and a supply reads only those that were there before it
(`Splitters.Layered`). Before anybody reads, each of them waits with its supply, delivers what the
supply means, and the budget of the pool pays for all supplies (`Splitters.Layered.allotted`).
-/

namespace GraphShapes

namespace Splitters

/-- Every supply reads only splitters with smaller numbers. -/
def Layered (ss : Splitters) : Prop :=
  ∀ (s : Nat) (supply : Plan), ss[s]? = some supply → ∀ t ∈ supply.readSplitters, t < s

instance (ss : Splitters) : Decidable ss.Layered :=
  decidable_of_iff (∀ e ∈ ss.toList.zipIdx, ∀ t ∈ e.1.readSplitters, t < e.2) <| by
    constructor
    · exact fun h s supply hs => h (supply, s) (by simpa [List.mk_mem_zipIdx_iff_getElem?] using hs)
    · rintro h ⟨supply, s⟩ he
      exact h s supply (by simpa [List.mk_mem_zipIdx_iff_getElem?] using he)

/-- What the splitters deliver, and at most how many rows. -/
def around (ss : Splitters) : Surroundings where
  delivered := delivered ss.meanings
  limit := (Pool.ofSplitters ss).limitOf

/-- The pool has the splitters, in the order of their numbers, and its budget pays for them. -/
structure Allotted (ss : Splitters) : Prop where
  size : (Pool.ofSplitters ss).splitters.size = ss.size
  entry : ∀ (s : Nat) (supply : Plan), ss[s]? = some supply →
    (Pool.ofSplitters ss).splitters[s]? =
        some { supply := .waiting supply, limit := supply.limit ss.around.limit } ∧
      ss.around.delivered s = supply.meaning ss.around.delivered
  bounded : ss.around.Bounded
  affordable : (Pool.ofSplitters ss).work ss.around ≤ (Pool.ofSplitters ss).budget

theorem ofSplitters_push (ss : Splitters) (supply : Plan) :
    Pool.ofSplitters (ss.push supply) = ((Pool.ofSplitters ss).share supply).2 := by
  unfold Pool.ofSplitters
  rw [Array.foldl_push]

theorem splitters_push (ss : Splitters) (supply : Plan) :
    (Pool.ofSplitters (ss.push supply)).splitters = (Pool.ofSplitters ss).splitters.push
      { supply := .waiting supply, limit := supply.limit ss.around.limit } := by
  rw [ofSplitters_push]
  rfl

theorem budget_push (ss : Splitters) (supply : Plan) :
    (Pool.ofSplitters (ss.push supply)).budget = (Pool.ofSplitters ss).budget +
      supply.load ss.around.limit + supply.limit ss.around.limit := by
  rw [ofSplitters_push]
  rfl

theorem Layered.of_push {ss : Splitters} {supply : Plan} (h : Layered (ss.push supply)) :
    ss.Layered ∧ ∀ t ∈ supply.readSplitters, t < ss.size := by
  constructor
  · intro s supply' hs
    refine h s supply' ?_
    rw [Array.getElem?_push_lt (Array.getElem?_eq_some_iff.1 hs).1]
    exact congrArg some (Array.getElem?_eq_some_iff.1 hs).2
  · exact h ss.size supply Array.getElem?_push_size

section Push

variable {ss : Splitters} (supply : Plan)

theorem limit_push_lt {t : Nat} (ht : t < (Pool.ofSplitters ss).splitters.size) :
    (around (ss.push supply)).limit t = ss.around.limit t := by
  show Pool.limitOf _ t = Pool.limitOf _ t
  rw [Pool.limitOf, Pool.limitOf, splitters_push, Array.getElem?_push_lt ht,
    Array.getElem?_eq_getElem ht]

theorem limit_push_size : (around (ss.push supply)).limit (Pool.ofSplitters ss).splitters.size =
    supply.limit ss.around.limit := by
  show Pool.limitOf _ _ = _
  rw [Pool.limitOf, splitters_push, Array.getElem?_push_size]
  rfl

/-- One more splitter changes nothing about what the others deliver. -/
theorem delivered_push_lt {t : Nat} (ht : t < ss.size) :
    (around (ss.push supply)).delivered t = ss.around.delivered t :=
  (delivered_of_extends (.push .refl supply) ht).2

/-- A plan that reads the splitters is the same when there is one more. -/
theorem same_push (hsize : (Pool.ofSplitters ss).splitters.size = ss.size) {plan : Plan}
    (hreads : ∀ t ∈ plan.readSplitters, t < ss.size) :
    plan.Same (around (ss.push supply)) ss.around := by
  exact plan.same fun t ht =>
    ⟨delivered_push_lt supply (hreads t ht), limit_push_lt supply (hsize ▸ hreads t ht)⟩

end Push

theorem delivered_of_size_le {ss : Splitters} {t : Nat} (h : ss.size ≤ t) :
    delivered ss.meanings t = .ok .done := by
  rw [delivered, Array.getD_eq_getD_getElem?,
    Array.getElem?_eq_none (by rw [size_meanings]; exact h), Option.getD_none]

section AllottedPush

variable {ss : Splitters} (h : ss.Allotted) (supply : Plan)
include h

/-- A supply that was there reads only what is below it, so one more splitter leaves it the same. -/
theorem Allotted.same_push (hlayered : ss.Layered) {s : Nat} {supply' : Plan}
    (hs : ss[s]? = some supply') : supply'.Same (around (ss.push supply)) ss.around := by
  have hlt : s < ss.size := (Array.getElem?_eq_some_iff.1 hs).1
  exact Splitters.same_push supply h.size fun t ht => Nat.lt_trans (hlayered s supply' hs t ht) hlt

theorem Allotted.bounded_push : (around (ss.push supply)).Bounded := by
  intro t
  -- an old splitter, the new one, or none at all, which delivers nothing
  rcases Nat.lt_trichotomy t ss.size with hlt | rfl | hgt
  · rw [limit_push_lt supply (h.size ▸ hlt), delivered_push_lt supply hlt]
    exact h.bounded t
  · have hdelivered : (around (ss.push supply)).delivered ss.size =
        supply.meaning ss.around.delivered := delivered_push ss supply
    have hlimit : (around (ss.push supply)).limit (Pool.ofSplitters ss).splitters.size = _ :=
      limit_push_size supply
    rw [h.size] at hlimit
    rw [hdelivered, hlimit]
    exact supply.meaning_atMost h.bounded
  · have hdelivered : (around (ss.push supply)).delivered t = .ok .done :=
      delivered_of_size_le (by rw [Array.size_push]; exact hgt)
    rw [hdelivered]
    exact .pure (Nat.zero_le _)

/-- One more splitter changes nothing about the work that the others are good for. -/
theorem Allotted.work_push (hlayered : ss.Layered) :
    (Pool.ofSplitters ss).work (around (ss.push supply)) =
      (Pool.ofSplitters ss).work ss.around := by
  unfold Pool.work
  congr 1
  refine List.map_congr_left fun splitter hmem => ?_
  obtain ⟨s, hs⟩ := List.mem_iff_getElem?.1 hmem
  rw [Array.getElem?_toList] at hs
  have hlt : s < ss.size := h.size ▸ (Array.getElem?_eq_some_iff.1 hs).1
  have hentry := (h.entry s ss[s] (Array.getElem?_eq_getElem hlt)).1
  rw [hs, Option.some_inj] at hentry
  rw [hentry]
  exact (h.same_push supply hlayered (Array.getElem?_eq_getElem hlt)).load

/-- A supply that reads what is there may be allotted a splitter. -/
theorem Allotted.push (hlayered : ss.Layered) (hreads : ∀ t ∈ supply.readSplitters, t < ss.size) :
    Allotted (ss.push supply) := by
  have hnew : supply.Same (around (ss.push supply)) ss.around :=
    Splitters.same_push supply h.size hreads
  constructor
  case size =>
    rw [splitters_push, Array.size_push, Array.size_push, h.size]
  case entry =>
    intro s supply' hs
    rw [splitters_push, Array.getElem?_push]
    rw [Array.getElem?_push] at hs
    -- the last entry is the new supply, the others are the old ones
    by_cases hlast : s = ss.size
    · rw [if_pos hlast] at hs
      obtain rfl := Option.some.inj hs
      rw [h.size, if_pos hlast, hnew.limit, hnew.meaning, hlast]
      exact ⟨rfl, delivered_push ss supply⟩
    · rw [if_neg hlast] at hs
      obtain ⟨hentry, hdelivered⟩ := h.entry s supply' hs
      have hlt : s < ss.size := (Array.getElem?_eq_some_iff.1 hs).1
      have hsame := h.same_push supply hlayered hs
      rw [h.size, if_neg hlast, hsame.limit, hsame.meaning]
      exact ⟨hentry, (delivered_push_lt supply hlt).trans hdelivered⟩
  case bounded => exact h.bounded_push supply
  case affordable =>
    have hold := h.work_push supply hlayered
    have haffordable := h.affordable
    have hload : Supply.work (around (ss.push supply)) (.waiting supply) =
        supply.load ss.around.limit := hnew.load
    unfold Pool.work at hold haffordable ⊢
    rw [splitters_push, budget_push, Array.toList_push, List.map_append, List.sum_append, hold]
    simp only [List.map_cons, List.map_nil, List.sum_cons, List.sum_nil, hload]
    omega

end AllottedPush

/-- What was allotted layer by layer. -/
theorem Layered.allotted {ss : Splitters} (h : ss.Layered) : ss.Allotted := by
  obtain ⟨supplies⟩ := ss
  induction supplies using List.reverseRecOn with
  | nil =>
    refine ⟨rfl, nofun, fun t => ?_, Nat.zero_le _⟩
    exact .pure (Nat.zero_le _)
  | append_singleton supplies supply ih =>
    have hpush : (⟨supplies ++ [supply]⟩ : Splitters) = Array.push ⟨supplies⟩ supply :=
      (List.push_toArray supplies supply).symm
    rw [hpush] at h ⊢
    obtain ⟨hlayered, hreads⟩ := Layered.of_push h
    exact (ih hlayered).push supply hlayered hreads

end Splitters

/-- A splitter that was just allotted waits with its supply. -/
theorem Pool.waiting_ofSplitters {splitters : Splitters} (hlayered : splitters.Layered)
    {s : SplitterId} {splitter : Splitter}
    (hentry : (Pool.ofSplitters splitters).splitters[s]? = some splitter) :
    ∃ plan, splitters[s]? = some plan ∧ splitter.supply = .waiting plan := by
  have hlt : s < splitters.size := by
    rw [← hlayered.allotted.size]
    exact (Array.getElem?_eq_some_iff.1 hentry).1
  have hplan : splitters[s]? = some splitters[s] := Array.getElem?_eq_getElem hlt
  obtain ⟨hwaiting, -⟩ := hlayered.allotted.entry s _ hplan
  rw [hentry, Option.some_inj] at hwaiting
  exact ⟨_, hplan, by rw [hwaiting]⟩

end GraphShapes
