import GraphShapes.Proofs.Planner.Leaf
import GraphShapes.Proofs.Planner.Members

/-!
# Planning for given targets

For targets that a provider hands out, a shape plans what the shape tree says about these targets
(`Shape.gives_among`). Nothing else matters: not in which order they come, how often, or what comes
with them, and neither the delta of the pass nor its settings, since every leaf looks at the
distinct targets that are handed out.
-/

namespace GraphShapes

namespace Unshared

variable {ctx : Context} {frame : Frame}

/-- Tagging changes no line. -/
theorem Gives.tag {step : Except PlanError (Option Plan)} {table : Option Table}
    (h : Gives step table) (id : ShapeId) :
    Gives (do return (← step).map (Plan.tag · id)) table := by
  obtain ⟨plan, rfl, hrel⟩ := h
  cases hrel with
  | none => exact .none
  | some hp => exact .some (hp.tag id)

/-- A constraint with given targets looks at these. -/
theorem gives_plan_among (hr : ctx.source.Reliable) (id : ShapeId) (c : Constraint) (negate : Bool)
    {q : Plan} {rows : List Row} (hq : q.Lists rows) :
    Gives (do return some (← plan ctx frame id c (some (.ok q)) negate))
      (some (c.table ctx.source.store (rows.map Row.target).toFinset frame.path negate)) :=
  .some (shows_tag hr rfl hq.delivers_focus id negate)

end Unshared

namespace Shape

open Unshared (Gives)
open Unshared.Member (PlansPart)

variable {ctx : Context}

/-- The shape as a part of a conjunction, negated or not. -/
def unsharedMember (ctx : Context) (negate : Bool) (s : Shape) : Unshared.Member where
  plan frame given := s.unshared ctx frame given negate
  hasOwnPath inherited := s.hasOwnPath inherited
  touched frame delta := s.touched delta frame

/-- The members of a conjunction stand for its shapes. -/
theorem unsharedMembers_eq_map (ctx : Context) (negate : Bool) : ∀ ms : List Shape,
    unsharedMembers ctx negate ms = ms.map (unsharedMember ctx negate)
  | [] => rfl
  | s :: ms => by rw [unsharedMembers, unsharedMembers_eq_map ctx negate ms]; rfl

/-- The members of branches stand for their shapes. -/
theorem unsharedBranches_eq_map (ctx : Context) (negate : Bool) : ∀ bs : List (List Shape),
    unsharedBranches ctx negate bs = bs.map fun b => b.map (unsharedMember ctx negate)
  | [] => rfl
  | b :: bs => by
    rw [unsharedBranches, unsharedMembers_eq_map, unsharedBranches_eq_map ctx negate bs]
    rfl

/-- No member is lost. -/
theorem unsharedMembers_ne_nil (ctx : Context) {ms : List Shape} (hne : ms ≠ []) (negate : Bool) :
    unsharedMembers ctx negate ms ≠ [] := by
  rw [unsharedMembers_eq_map]
  exact fun hnil => hne (List.map_eq_nil_iff.1 hnil)

/-- Neither is a branch, or a member in one. -/
theorem unsharedBranches_ne_nil (ctx : Context) {bs : List (List Shape)} (hne : bs ≠ [])
    (hbs : ∀ b ∈ bs, b ≠ [])
    (negate : Bool) : unsharedBranches ctx negate bs ≠ [] ∧
      ∀ b ∈ unsharedBranches ctx negate bs, b ≠ [] := by
  rw [unsharedBranches_eq_map]
  refine ⟨fun hnil => hne (List.map_eq_nil_iff.1 hnil), fun b hb hnil => ?_⟩
  obtain ⟨b', hb', rfl⟩ := List.mem_map.1 hb
  exact hbs b' hb' (List.map_eq_nil_iff.1 hnil)

/-- Planned for the targets of a plan, the shape gives what the shape tree says about a set. -/
abbrev GivesAmong (ctx : Context) (q : Plan) (X : Finset Term) (s : Shape) : Prop :=
  ∀ (frame : Frame) (negate : Bool), Gives (s.unshared ctx frame (some (.ok q)) negate)
    (s.rows ctx.source.store X frame.path negate)

section Given

variable {q : Plan} {X : Finset Term} {h : ShapeHead}

/-- The members of a conjunction plan the parts that the shape tree says. -/
theorem members_give {ms : List Shape} (ih : ∀ m ∈ ms, GivesAmong ctx q X m) (frame : Frame)
    (negate : Bool) : List.Forall₂ (PlansPart frame fun m => m.plan frame (some (.ok q)))
      (unsharedMembers ctx negate ms) (parts ctx.source.store X ms frame.path negate) := by
  rw [unsharedMembers_eq_map, parts_eq_map]
  exact forall₂_map_of_forall_mem fun m hm => ⟨ih m hm frame negate, rfl⟩

/-- So do the members of branches. -/
theorem branches_give {bs : List (List Shape)} (ih : ∀ b ∈ bs, ∀ m ∈ b, GivesAmong ctx q X m)
    (frame : Frame) (negate : Bool) :
    List.Forall₂ (List.Forall₂ (PlansPart frame fun m => m.plan frame (some (.ok q))))
      (unsharedBranches ctx negate bs) (branchParts ctx.source.store X bs frame.path negate) := by
  induction bs with
  | nil => exact .nil
  | cons b bs ih' =>
    obtain ⟨hb, hbs⟩ := List.forall_mem_cons.1 ih
    exact .cons (members_give hb frame negate) (ih' hbs)

/-- The negation of a disjunction has a member for every branch. -/
theorem negatedBranches_give {bs : List (List Shape)} (hbs : ∀ b ∈ bs, b ≠ [])
    (ih : ∀ b ∈ bs, ∀ m ∈ b, GivesAmong ctx q X m) (frame : Frame) :
    List.Forall₂ (PlansPart frame fun m => m.plan frame (some (.ok q)))
      ((unsharedBranches ctx true bs).map (Unshared.Member.negatedBranch ctx))
      ((branchParts ctx.source.store X bs frame.path true).map Table.Part.negatedBranch) := by
  induction bs with
  | nil => exact .nil
  | cons b bs ih' =>
    obtain ⟨hne, hnes⟩ := List.forall_mem_cons.1 hbs
    obtain ⟨hb, hbs'⟩ := List.forall_mem_cons.1 ih
    exact .cons (Unshared.Member.plansPart_negatedBranch (unsharedMembers_ne_nil ctx hne true)
      (members_give hb frame true)) (ih' hnes hbs')

/-- A conjunction, for either polarity. -/
theorem gives_conj_among {ms : List Shape} (hd : h.deactivated = false) (hne : ms ≠ [])
    (ih : ∀ m ∈ ms, GivesAmong ctx q X m) : GivesAmong ctx q X (conj h ms) := by
  intro frame negate
  have hempty : ms.isEmpty = false := List.isEmpty_eq_false_iff.2 hne
  have hms := members_give ih (frame.within h.path) negate
  rw [unshared, rows, hd, hempty]
  cases negate with
  | false => exact (Unshared.Member.gives_unite hms).tag h.id
  | true =>
    have hnil := Unshared.Member.singletons_ne_nil (unsharedMembers_ne_nil ctx hne true)
    exact (Unshared.Member.gives_disjunction_given hnil.1 hnil.2
      (Table.forall₂_singletons hms)).tag h.id

/-- A disjunction, for either polarity. -/
theorem gives_disj_among {bs : List (List Shape)} (hd : h.deactivated = false) (hne : bs ≠ [])
    (hbs : ∀ b ∈ bs, b ≠ []) (ih : ∀ b ∈ bs, ∀ m ∈ b, GivesAmong ctx q X m) :
    GivesAmong ctx q X (disj h bs) := by
  intro frame negate
  have hempty : bs.isEmpty = false := List.isEmpty_eq_false_iff.2 hne
  have hany : bs.any List.isEmpty = false :=
    List.any_eq_false.2 fun b hb he => hbs b hb (List.isEmpty_iff.1 he)
  rw [unshared, rows, hd, hempty, hany]
  cases negate with
  | false =>
    have hnil := unsharedBranches_ne_nil ctx hne hbs false
    exact (Unshared.Member.gives_disjunction_given hnil.1 hnil.2
      (branches_give ih (frame.within h.path) false)).tag h.id
  | true =>
    exact (Unshared.Member.gives_unite
      (negatedBranches_give hbs ih (frame.within h.path))).tag h.id

/-- A negation, which plans the other polarity of what it negates. -/
theorem gives_neg_among {inner : Shape} (hd : h.deactivated = false)
    (ih : GivesAmong ctx q X inner) : GivesAmong ctx q X (neg h inner) := by
  intro frame negate
  rw [unshared, rows, hd]
  exact (ih (frame.within h.path) (!negate)).tag h.id

end Given

/-- What is switched off is not planned. -/
theorem unshared_of_deactivated {s : Shape} (hd : s.deactivated = true) (frame : Frame)
    (given : Option Offer) (negate : Bool) : s.unshared ctx frame given negate = .ok none := by
  cases s <;> exact if_pos hd

/-- For given targets, every well-formed shape plans what the shape tree says about these. -/
theorem gives_among (hs : ctx.source.Reliable) {q : Plan} {rows : List Row} (hq : q.Lists rows)
    (s : Shape) (hw : s.wellFormed = true) :
    GivesAmong ctx q (rows.map Row.target).toFinset s := by
  induction s using active_induction with
  | deactivated s hd =>
    intro frame negate
    rw [unshared_of_deactivated hd, rows_of_deactivated hd]
    exact .none
  | constraint h c hd =>
    intro frame negate
    rw [unshared, Shape.rows, hd]
    exact Unshared.gives_plan_among hs h.id c negate hq
  | conj h ms hd ih =>
    obtain ⟨hne, hms⟩ := wellFormed_conj hw hd
    exact gives_conj_among hd hne fun m hm => ih m hm (hms m hm)
  | disj h bs hd ih =>
    obtain ⟨hne, hbs⟩ := wellFormed_disj hw hd
    exact gives_disj_among hd hne (fun b hb => (hbs b hb).1) fun b hb m hm =>
      ih b hb m hm ((hbs b hb).2 m hm)
  | neg h inner hd ih => exact gives_neg_among hd (ih (wellFormed_neg hw hd))

end Shape

end GraphShapes
