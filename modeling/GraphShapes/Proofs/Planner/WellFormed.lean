import GraphShapes.Proofs.Planner.Kept

/-!
# Only well-formed shapes are planned

A pass that passes over nothing plans every part of a shape, and so does planning for given targets:
the shape is planned only if it is well-formed (`Shape.ensures_wellFormed`). Otherwise the malformed
part may be one that the delta of the pass cannot bear on, and that nobody looks at.

The planner reaches a part of a shape through lists of members and branches, and it goes through
all of them or fails. So it is enough to follow a single part (`Unshared.Member.Needs`).
-/

namespace GraphShapes

namespace Unshared

variable {α β : Type} {W : Prop}

/-- What the first step ensures, no later step takes back. -/
theorem Ensures.before {x : Except PlanError α} (h : Ensures x fun _ => W)
    (f : α → Except PlanError β) : Ensures (x >>= f) fun _ => W :=
  h.bind fun _ hw _ _ => hw

/-- The pass looks at everything, or the targets are given. -/
def Complete (ctx : Context) (given : Option Offer) : Prop :=
  ctx.restriction = none ∨ given.isSome = true

theorem complete_some {ctx : Context} (given : Offer) : Complete ctx (some given) := .inr rfl

namespace Member

variable {ctx : Context} {frame : Frame}

/-- Where nothing is passed over, the member is planned only if the condition holds. -/
def Needs (ctx : Context) (frame : Frame) (m : Member) (W : Prop) : Prop :=
  ∀ given : Option Offer, Complete ctx given → Ensures (m.plan frame given) fun _ => W

section Part

variable {m : Member} {ms : List Member} {b : List Member} {bs : List (List Member)}

theorem needs_planEach {plan : Member → Except PlanError (Option Plan)} (hm : m ∈ ms)
    (h : Ensures (plan m) fun _ => W) : Ensures (planEach frame plan ms) fun _ => W := by
  induction ms with
  | nil => exact absurd hm List.not_mem_nil
  | cons m' ms ih =>
    rcases List.mem_cons.1 hm with rfl | hm
    · exact h.before _
    · refine Ensures.after fun p => ?_
      cases p with
      | none => exact ih hm
      | some p => exact (ih hm).before _

theorem needs_unite {plan : Member → Except PlanError (Option Plan)} (hm : m ∈ ms)
    (h : Ensures (plan m) fun _ => W) : Ensures (unite frame plan ms) fun _ => W :=
  (needs_planEach hm h).before _

variable (h : m.Needs ctx frame W)
include h

theorem needs_conjunction (hm : m ∈ ms) {given : Option Offer} (hgiven : Complete ctx given) :
    Ensures (conjunction ctx frame ms given) fun _ => W := by
  refine needs_unite hm ?_
  cases given with
  | some given => exact h _ hgiven
  | none =>
    have hbulk : ctx.restriction = none := hgiven.resolve_right Bool.false_ne_true
    unfold planTouched
    rw [hbulk]
    exact h none (.inl hbulk)

theorem needs_candidatesOf (hbulk : ctx.restriction = none) (hb : b ∈ bs) (hm : m ∈ b) :
    Ensures (candidatesOf ctx frame bs) fun _ => W := by
  induction bs with
  | nil => exact absurd hb List.not_mem_nil
  | cons b' bs ih =>
    rcases List.mem_cons.1 hb with rfl | hb
    · exact (needs_conjunction h hm (.inl hbulk)).before _
    · refine Ensures.after fun p => ?_
      cases p with
      | none => exact ih hb
      | some p => exact (ih hb).before _

theorem needs_planBranches (hb : b ∈ bs) (hm : m ∈ b) {given : Option Offer}
    (hgiven : Complete ctx given) : Ensures (planBranches frame given bs) fun _ => W := by
  induction bs with
  | nil => exact absurd hb List.not_mem_nil
  | cons b' bs ih =>
    rcases List.mem_cons.1 hb with rfl | hb
    · exact (needs_unite hm (h given hgiven)).before _
    · refine Ensures.after fun p => ?_
      cases p with
      | none => exact ih hb
      | some p => exact (ih hb).before _

theorem needs_disjunction (hb : b ∈ bs) (hm : m ∈ b) {given : Option Offer}
    (hgiven : Complete ctx given) : Ensures (disjunction ctx frame bs given) fun _ => W := by
  -- the branches are planned in any case, with candidates or without
  have hintersect : ∀ given, Complete ctx given →
      Ensures (intersectBranches frame bs given) fun _ => W :=
    fun given hgiven => (needs_planBranches h hb hm hgiven).before _
  unfold disjunction
  cases bs.isEmpty || bs.any List.isEmpty with
  | true => exact Ensures.error _
  | false =>
    simp only [Bool.false_eq_true, if_false]
    split
    · next only =>
      obtain rfl := List.mem_singleton.1 hb
      obtain rfl := List.mem_singleton.1 hm
      exact h given hgiven
    · cases given with
      | some given =>
        unfold candidates
        cases ctx.config.cacheSelectNodes with
        | true =>
          cases given with
          | error e => exact Ensures.error _
          | ok q => exact hintersect _ (complete_some _)
        | false => exact hintersect _ (complete_some _)
      | none =>
        -- nothing is passed over because no delta restricts the pass
        have hbulk : ctx.restriction = none := hgiven.resolve_right Bool.false_ne_true
        unfold candidates
        cases ctx.baseEmpty with
        | true => exact hintersect none (.inl hbulk)
        | false => exact ((needs_candidatesOf h hbulk hb hm).before _).before _

theorem needs_negatedBranch (hm : m ∈ ms) : (negatedBranch ctx ms).Needs ctx frame W :=
  fun _ hgiven =>
    needs_disjunction h (List.mem_map_of_mem hm) (List.mem_singleton_self m) hgiven

end Part

end Member

end Unshared

namespace Shape

open Unshared (Ensures Complete)

variable {ctx : Context}

theorem mem_unsharedMembers (ctx : Context) {m : Shape} {ms : List Shape} (hm : m ∈ ms)
    (negate : Bool) : unsharedMember ctx negate m ∈ unsharedMembers ctx negate ms := by
  rw [unsharedMembers_eq_map]
  exact List.mem_map_of_mem hm

theorem mem_unsharedBranches (ctx : Context) {b : List Shape} {bs : List (List Shape)}
    (hb : b ∈ bs) (negate : Bool) :
    unsharedMembers ctx negate b ∈ unsharedBranches ctx negate bs := by
  rw [unsharedBranches_eq_map, unsharedMembers_eq_map]
  exact List.mem_map_of_mem hb

section Parts

variable {h : ShapeHead} (hd : h.deactivated = false) {m : Shape} {W : Prop} {frame : Frame}
  {negate : Bool}
include hd

/-- A conjunction, or the negation of one, needs what any of its members needs. -/
theorem needs_conj {ms : List Shape} (hm : m ∈ ms)
    (hneeds : (unsharedMember ctx negate m).Needs ctx (frame.within h.path) W) :
    (unsharedMember ctx negate (conj h ms)).Needs ctx frame W := by
  intro given hgiven
  have hmem := mem_unsharedMembers ctx hm negate
  show Ensures ((conj h ms).unshared ctx frame given negate) _
  rw [unshared, hd]
  cases ms.isEmpty with
  | true => exact Ensures.error _
  | false =>
    cases negate with
    | false => exact (Unshared.Member.needs_conjunction hneeds hmem hgiven).before _
    | true =>
      exact (Unshared.Member.needs_disjunction hneeds (List.mem_map_of_mem hmem)
        (List.mem_singleton_self _) hgiven).before _

/-- A disjunction, or the negation of one, needs what any member of a branch needs. -/
theorem needs_disj {b : List Shape} {bs : List (List Shape)} (hb : b ∈ bs) (hm : m ∈ b)
    (hneeds : (unsharedMember ctx negate m).Needs ctx (frame.within h.path) W) :
    (unsharedMember ctx negate (disj h bs)).Needs ctx frame W := by
  intro given hgiven
  have hmem := mem_unsharedMembers ctx hm negate
  have hmemBranch := mem_unsharedBranches ctx hb negate
  show Ensures ((disj h bs).unshared ctx frame given negate) _
  rw [unshared, hd]
  cases bs.isEmpty with
  | true => exact Ensures.error _
  | false =>
    cases bs.any List.isEmpty with
    | true => exact Ensures.error _
    | false =>
      cases negate with
      | false => exact (Unshared.Member.needs_disjunction hneeds hmemBranch hmem hgiven).before _
      | true =>
        exact (Unshared.Member.needs_conjunction
          (Unshared.Member.needs_negatedBranch hneeds hmem) (List.mem_map_of_mem hmemBranch)
          hgiven).before _

end Parts

/-- Where nothing is passed over, only a well-formed shape is planned. -/
theorem ensures_wellFormed (s : Shape) : ∀ (frame : Frame) (negate : Bool),
    (unsharedMember ctx negate s).Needs ctx frame (s.wellFormed = true) := by
  induction s using active_induction with
  | deactivated s hd => exact fun _ _ _ _ _ _ => wellFormed_of_deactivated hd
  | constraint h c => exact fun _ _ _ _ _ _ => rfl
  | conj h ms hd ih =>
    intro frame negate given hgiven p hp
    refine (wellFormed_conj_iff hd).2 ⟨fun hnil => ?_, fun m hm =>
      needs_conj hd hm (ih m hm (frame.within h.path) negate) given hgiven p hp⟩
    have hp : (conj h ms).unshared ctx frame given negate = .ok p := hp
    rw [unshared, hd, hnil] at hp
    cases hp
  | disj h bs hd ih =>
    intro frame negate given hgiven p hp
    refine (wellFormed_disj_iff hd).2 ⟨fun hnil => ?_, fun b hb => ⟨fun hnil => ?_, fun m hm =>
      needs_disj hd hb hm (ih b hb m hm (frame.within h.path) negate) given hgiven p hp⟩⟩
    · have hp : (disj h bs).unshared ctx frame given negate = .ok p := hp
      rw [unshared, hd, hnil] at hp
      cases hp
    · have hp : (disj h bs).unshared ctx frame given negate = .ok p := hp
      have hany : bs.any List.isEmpty = true :=
        List.any_eq_true.2 ⟨b, hb, List.isEmpty_iff.2 hnil⟩
      rw [unshared, hd, hany] at hp
      cases hempty : bs.isEmpty with
      | true => rw [hempty] at hp; cases hp
      | false => rw [hempty] at hp; cases hp
  | neg h inner hd ih =>
    intro frame negate given hgiven
    show Ensures ((neg h inner).unshared ctx frame given negate) _
    rw [unshared, hd]
    refine Ensures.before ?_ _
    exact (ih (frame.within h.path) (!negate) given hgiven).mono fun _ hw =>
      (wellFormed_neg_iff hd).2 hw

end Shape

end GraphShapes
