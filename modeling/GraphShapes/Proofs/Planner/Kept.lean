import GraphShapes.Proofs.Planner.Among

/-!
# What every plan has

`Unshared.Ensures x Q` says that whatever the step `x` succeeds with satisfies `Q`. Its rules
(`Ensures.pure`, `Ensures.bind`) follow the `do` blocks of the planner, without a word about when
they succeed.

`Plan.Kept` lists what the planner builds: the plans of constraints, and the combinations of plans
that it has already built (`Plan.Combines`). A property of plans that all of these have and keep,
every plan of a shape has (`Shape.ensures_kept`), in a bulk pass and in any other, for given targets
and without.
-/

namespace GraphShapes

namespace Unshared

/-- If the step succeeds, then with something that satisfies the condition. -/
def Ensures {α : Type} (x : Except PlanError α) (Q : α → Prop) : Prop := ∀ a, x = .ok a → Q a

section Rules

variable {α β : Type} {Q : α → Prop} {R : β → Prop}

theorem Ensures.pure {a : α} (h : Q a) : Ensures (.ok a) Q := by
  intro b hb
  obtain rfl := Except.ok.inj hb
  exact h

theorem Ensures.pure_some {a : α} (h : Q a) : Ensures (.ok (some a)) fun r => ∀ b ∈ r, Q b := by
  refine .pure fun b hb => ?_
  obtain rfl := Option.some.inj hb
  exact h

theorem Ensures.pure_none : Ensures (.ok none) fun r => ∀ b ∈ r, Q b :=
  .pure fun _ hb => nomatch hb

/-- Of a step that fails nothing has to be shown. -/
theorem Ensures.error (e : PlanError) : Ensures (.error e) Q := fun _ h => nomatch h

/-- One step after the other: the second may rely on what the first ensures. -/
theorem Ensures.bind {x : Except PlanError α} {f : α → Except PlanError β} (h : Ensures x Q)
    (hf : ∀ a, Q a → Ensures (f a) R) : Ensures (x >>= f) R := by
  cases x with
  | error e => exact .error e
  | ok a => exact hf a (h a rfl)

/-- Whatever the first step comes to. -/
theorem Ensures.after {x : Except PlanError α} {f : α → Except PlanError β}
    (hf : ∀ a, Ensures (f a) R) : Ensures (x >>= f) R :=
  Ensures.bind (Q := fun _ => True) (fun _ _ => trivial) fun a _ => hf a

/-- What is ensured may be weakened. -/
theorem Ensures.mono {x : Except PlanError α} {Q' : α → Prop} (h : Ensures x Q)
    (hQ : ∀ a, Q a → Q' a) : Ensures x Q' := fun a ha => hQ a (h a ha)

end Rules

/-- Targets that are handed down satisfy the condition, unless they are refused. -/
def OfferHas (Given : Plan → Prop) (given : Option Offer) : Prop :=
  ∀ q, given = some (.ok q) → Given q

theorem offerHas_none {Given : Plan → Prop} : OfferHas Given none := fun _ h => nomatch h

theorem offerHas_some {Given : Plan → Prop} {q : Plan} (h : Given q) :
    OfferHas Given (some (.ok q)) := by
  intro q' hq
  obtain rfl := Except.ok.inj (Option.some.inj hq)
  exact h

end Unshared

open Unshared (Ensures OfferHas)

/-- The plans of the constraints have the property, where the targets that they are given satisfy
the condition, and what the planner makes of plans with the property has it as well. -/
structure Plan.Kept (ctx : Context) (targets : List Target)
    (leaf : Option Path → Constraint → Prop) (Given P : Plan → Prop) : Prop where
  plan : ∀ {path : Option Path} {c : Constraint} {given : Option Offer} (id : ShapeId)
    (negate : Bool), leaf path c → OfferHas Given given →
      Ensures (Unshared.plan ctx ⟨targets, path⟩ id c given negate) P
  tag : ∀ {p : Plan} (id : ShapeId), P p → P (.tag p id)
  relabel : ∀ {p : Plan}, p.layout = .aggregated → P p → P (.relabel p .aggregated)
  unite : ∀ {plans : List Plan} (ownPath : Bool), plans ≠ [] → (∀ p ∈ plans, P p) →
    P (.unique (.union (Member.unionInputs plans ownPath)) none)
  intersection : ∀ {first : Plan} {rest : List Plan} (ownPath : Bool),
    (∀ p ∈ first :: rest, P p) →
      P (Member.intersection (Member.commonLayout (first :: rest) ownPath) first rest)
  /-- The candidates of a disjunction are handed down to its branches. -/
  candidates : ∀ {plans : List Plan}, (∀ p ∈ plans, P p) →
    Given (.unique (.union (plans.map fun p => p.trimTo 1)) none)

/-- A union of plans with the property has it as well. -/
def Plan.Unites (P : Plan → Prop) : Prop :=
  ∀ {plans : List Plan} (ownPath : Bool), plans ≠ [] → (∀ p ∈ plans, P p) →
    P (.unique (.union (Member.unionInputs plans ownPath)) none)

/-- What the planner makes of plans with the property has it as well, whatever shape it plans. -/
structure Plan.Combines (Given P : Plan → Prop) : Prop where
  relabel : ∀ {p : Plan}, p.layout = .aggregated → P p → P (.relabel p .aggregated)
  unite : Plan.Unites P
  intersection : ∀ {first : Plan} {rest : List Plan} (ownPath : Bool),
    (∀ p ∈ first :: rest, P p) →
      P (Member.intersection (Member.commonLayout (first :: rest) ownPath) first rest)
  /-- The candidates of a disjunction are handed down to its branches. -/
  candidates : ∀ {plans : List Plan}, (∀ p ∈ plans, P p) →
    Given (.unique (.union (plans.map fun p => p.trimTo 1)) none)

/-- What all plans of a planner have and keep, combinations keep in particular. -/
theorem Plan.Kept.combines {ctx : Context} {targets : List Target}
    {leaf : Option Path → Constraint → Prop} {Given P : Plan → Prop}
    (k : Plan.Kept ctx targets leaf Given P) : Plan.Combines Given P :=
  ⟨k.relabel, k.unite, k.intersection, k.candidates⟩

namespace Unshared.Member

variable {ctx : Context} {targets : List Target} {path : Option Path} {Given P : Plan → Prop}

/-- Planned where the path holds, for whatever targets, the member has the property. -/
def Has (targets : List Target) (path : Option Path) (Given P : Plan → Prop) (m : Member) : Prop :=
  ∀ given : Option Offer, OfferHas Given given →
    Ensures (m.plan ⟨targets, path⟩ given) fun p => ∀ q ∈ p, P q

/-- Every plan of a list of members has what each member ensures. -/
theorem ensures_planEach {frame : Frame} {plan : Member → Except PlanError (Option Plan)} :
    ∀ {ms : List Member}, (∀ m ∈ ms, Ensures (plan m) fun p => ∀ q ∈ p, P q) →
      Ensures (planEach frame plan ms) fun r => ∀ q ∈ r.1, P q
  | [], _ => .pure fun _ hq => absurd hq List.not_mem_nil
  | m :: ms, h => by
    obtain ⟨hm, hms⟩ := List.forall_mem_cons.1 h
    refine Ensures.bind hm fun p hp => ?_
    cases p with
    | none => exact ensures_planEach hms
    | some p =>
      exact (ensures_planEach hms).bind fun r hr => .pure (List.forall_mem_cons.2 ⟨hp p rfl, hr⟩)

/-- A member that is passed over has no plan of which anything had to be shown. -/
theorem ensures_planTouched {m : Member} (h : m.Has targets path Given P) :
    Ensures (m.planTouched ctx ⟨targets, path⟩) fun p => ∀ q ∈ p, P q := by
  unfold planTouched
  split
  · exact h none offerHas_none
  · refine Ensures.after fun touched => ?_
    cases touched with
    | true => exact h none offerHas_none
    | false => exact .pure_none

/-- Members each of which is a branch of its own. -/
theorem has_singletons {ms : List Member} (h : ∀ m ∈ ms, m.Has targets path Given P) :
    ∀ b ∈ ms.map fun m => [m], ∀ m ∈ b, m.Has targets path Given P := by
  intro b hb m hm
  obtain ⟨m', hm', rfl⟩ := List.mem_map.1 hb
  exact List.mem_singleton.1 hm ▸ h m' hm'

section Unites

variable (hP : Plan.Unites P)
include hP

/-- The union of the members' plans keeps what they have. -/
theorem ensures_unite {frame : Frame} {plan : Member → Except PlanError (Option Plan)}
    {ms : List Member} (h : ∀ m ∈ ms, Ensures (plan m) fun p => ∀ q ∈ p, P q) :
    Ensures (unite frame plan ms) fun p => ∀ q ∈ p, P q := by
  refine (ensures_planEach h).bind fun r hr => ?_
  obtain ⟨plans, ownPath⟩ := r
  cases plans with
  | nil => exact .pure_none
  | cons p ps =>
    exact .pure_some (hP ownPath (List.cons_ne_nil p ps) hr)

/-- A conjunction keeps what its members have, for given targets or none. -/
theorem ensures_conjunction {ms : List Member} (h : ∀ m ∈ ms, m.Has targets path Given P)
    {given : Option Offer} (hgiven : OfferHas Given given) :
    Ensures (conjunction ctx ⟨targets, path⟩ ms given) fun p => ∀ q ∈ p, P q := by
  refine ensures_unite hP fun m hm => ?_
  cases given with
  | none => exact ensures_planTouched (h m hm)
  | some given => exact h m hm _ hgiven

/-- So does a branch. -/
theorem ensures_branch {ms : List Member} (h : ∀ m ∈ ms, m.Has targets path Given P)
    {given : Option Offer} (hgiven : OfferHas Given given) :
    Ensures (branch ⟨targets, path⟩ ms given) fun p => ∀ q ∈ p, P q :=
  ensures_unite hP fun m hm => h m hm _ hgiven

end Unites

section Combines

variable (k : Plan.Combines Given P)
include k

/-- The candidates are plans that have the property, cut to the target. -/
theorem ensures_candidatesOf : ∀ {bs : List (List Member)},
    (∀ b ∈ bs, ∀ m ∈ b, m.Has targets path Given P) →
      Ensures (candidatesOf ctx ⟨targets, path⟩ bs) fun inputs =>
        ∃ plans : List Plan, (∀ p ∈ plans, P p) ∧ inputs = plans.map fun p => p.trimTo 1
  | [], _ => .pure ⟨[], fun _ hp => absurd hp List.not_mem_nil, rfl⟩
  | b :: bs, h => by
    obtain ⟨hb, hbs⟩ := List.forall_mem_cons.1 h
    refine (ensures_conjunction k.unite hb offerHas_none).bind fun p hp => ?_
    cases p with
    | none => exact ensures_candidatesOf hbs
    | some p =>
      refine (ensures_candidatesOf hbs).bind fun inputs hinputs => .pure ?_
      obtain ⟨plans, hplans, rfl⟩ := hinputs
      exact ⟨p :: plans, List.forall_mem_cons.2 ⟨hp p rfl, hplans⟩, rfl⟩

/-- The candidates of a disjunction have what given targets have. -/
theorem ensures_candidates {bs : List (List Member)}
    (h : ∀ b ∈ bs, ∀ m ∈ b, m.Has targets path Given P) {given : Option Offer}
    (hgiven : OfferHas Given given) :
    Ensures (candidates ctx ⟨targets, path⟩ bs given) fun r =>
      ∀ given ∈ r, OfferHas Given given := by
  cases given with
  | some given =>
    unfold candidates
    cases ctx.config.cacheSelectNodes with
    | true =>
      cases given with
      | error e => exact .error _
      | ok q =>
        exact .pure_some hgiven
    | false =>
      exact .pure_some hgiven
  | none =>
    unfold candidates
    cases ctx.baseEmpty with
    | true =>
      exact .pure_some offerHas_none
    | false =>
      refine (ensures_candidatesOf k h).bind fun inputs hinputs => ?_
      obtain ⟨plans, hplans, rfl⟩ := hinputs
      cases plans with
      | nil => exact .pure_none
      | cons p ps =>
        -- the candidates are cut to their targets, of which everything holds that is kept by a cut
        exact .pure_some (offerHas_some (k.candidates hplans))

/-- Every plan of a list of branches has what the members ensure. -/
theorem ensures_planBranches {given : Option Offer} (hgiven : OfferHas Given given) :
    ∀ {bs : List (List Member)}, (∀ b ∈ bs, ∀ m ∈ b, m.Has targets path Given P) →
      Ensures (planBranches ⟨targets, path⟩ given bs) fun plans => ∀ p ∈ plans, P p
  | [], _ => .pure fun _ hp => absurd hp List.not_mem_nil
  | b :: bs, h => by
    obtain ⟨hb, hbs⟩ := List.forall_mem_cons.1 h
    refine (ensures_branch k.unite hb hgiven).bind fun p hp => ?_
    cases p with
    | none => exact ensures_planBranches hgiven hbs
    | some p =>
      exact (ensures_planBranches hgiven hbs).bind fun plans hplans =>
        .pure (List.forall_mem_cons.2 ⟨hp p rfl, hplans⟩)

/-- The joins of an intersection keep what its branches have. -/
theorem ensures_intersectBranches {bs : List (List Member)}
    (h : ∀ b ∈ bs, ∀ m ∈ b, m.Has targets path Given P) {given : Option Offer}
    (hgiven : OfferHas Given given) :
    Ensures (intersectBranches ⟨targets, path⟩ bs given) fun p => ∀ q ∈ p, P q := by
  refine (ensures_planBranches k hgiven h).bind fun plans hplans => ?_
  cases plans with
  | nil => exact .pure_none
  | cons first rest =>
    have hplan := k.intersection (bs.any fun b => b.any fun m => m.hasOwnPath path) hplans
    simp only
    split
    · exact .pure_some hplan
    · next hlayout =>
      rw [hlayout] at hplan
      refine .pure_some ?_
      rw [hlayout]
      exact k.relabel (GraphShapes.Member.layout_intersection_aggregated first rest) hplan

/-- A disjunction keeps what its members have. -/
theorem ensures_disjunction {bs : List (List Member)}
    (h : ∀ b ∈ bs, ∀ m ∈ b, m.Has targets path Given P) {given : Option Offer}
    (hgiven : OfferHas Given given) :
    Ensures (disjunction ctx ⟨targets, path⟩ bs given) fun p => ∀ q ∈ p, P q := by
  unfold disjunction
  cases bs.isEmpty || bs.any List.isEmpty with
  | true => exact Ensures.error _
  | false =>
    simp only [Bool.false_eq_true, if_false]
    split
    · next m => exact h [m] (List.mem_singleton_self _) m (List.mem_singleton_self _) given hgiven
    · refine (ensures_candidates k h hgiven).bind fun r hr => ?_
      cases r with
      | none => exact .pure_none
      | some given => exact ensures_intersectBranches k h (hr given rfl)

/-- So does the negation of a branch. -/
theorem has_negatedBranch {ms : List Member} (h : ∀ m ∈ ms, m.Has targets path Given P) :
    (negatedBranch ctx ms).Has targets path Given P :=
  fun _ hgiven => ensures_disjunction k (has_singletons h) hgiven

end Combines

end Unshared.Member

/-- What a tag makes of every plan holds of the plan of a step that is tagged. -/
theorem Unshared.ensures_tag {P Q : Plan → Prop} {id : ShapeId}
    (htag : ∀ {p}, P p → Q (.tag p id)) {step : Except PlanError (Option Plan)}
    (h : Ensures step fun p => ∀ q ∈ p, P q) :
    Ensures (step >>= fun p => .ok (p.map (Plan.tag · id))) fun p => ∀ q ∈ p, Q q := by
  refine h.bind fun p hp => .pure fun q hq => ?_
  obtain ⟨p', rfl, rfl⟩ := Option.map_eq_some_iff.1 hq
  exact htag (hp p' rfl)

namespace Shape

variable {ctx : Context} {targets : List Target} {leaf : Option Path → Constraint → Prop}
  {Given P : Plan → Prop}

/-- Planned below any path where its leaves are among those that are known, the shape has the
property. -/
def Has (ctx : Context) (targets : List Target) (leaf : Option Path → Constraint → Prop)
    (Given P : Plan → Prop) (s : Shape) : Prop :=
  ∀ (path : Option Path) (negate : Bool), (∀ p c, s.HasLeaf path p c → leaf p c) →
    (unsharedMember ctx negate s).Has targets path Given P

/-- A shape that is switched off has no plan. -/
theorem has_of_deactivated {s : Shape} (hd : s.deactivated = true) :
    s.Has ctx targets leaf Given P := by
  intro path negate _ given _
  show Ensures (s.unshared ctx _ given negate) _
  rw [unshared_of_deactivated hd]
  exact .pure_none

section Active

variable (k : Plan.Kept ctx targets leaf Given P) {h : ShapeHead} (hd : h.deactivated = false)
include k hd

/-- The plans of constraints have the property from the start. -/
theorem has_constraint (c : Constraint) : (constraint h c).Has ctx targets leaf Given P := by
  intro path negate hleaf given hgiven
  show Ensures ((constraint h c).unshared ctx _ given negate) _
  rw [unshared, hd]
  refine (k.plan h.id negate (hleaf _ c (.constraint hd)) hgiven).bind fun p hp => ?_
  exact .pure_some hp

/-- A conjunction, for either polarity. -/
theorem has_conj {ms : List Shape} (ih : ∀ m ∈ ms, m.Has ctx targets leaf Given P) :
    (conj h ms).Has ctx targets leaf Given P := by
  intro path negate hleaf given hgiven
  have hms : ∀ negate, ∀ m ∈ unsharedMembers ctx negate ms,
      m.Has targets (h.path.or path) Given P := by
    intro negate m hm
    rw [unsharedMembers_eq_map] at hm
    obtain ⟨m', hm', rfl⟩ := List.mem_map.1 hm
    exact ih m' hm' _ negate fun p c hl => hleaf p c (.conj hd hm' hl)
  show Ensures ((conj h ms).unshared ctx _ given negate) _
  rw [unshared, hd]
  cases ms.isEmpty with
  | true => exact .error _
  | false =>
    cases negate with
    | false =>
      exact Unshared.ensures_tag (k.tag h.id)
        (Unshared.Member.ensures_conjunction k.combines.unite (hms false) hgiven)
    | true =>
      exact Unshared.ensures_tag (k.tag h.id) (Unshared.Member.ensures_disjunction k.combines
        (Unshared.Member.has_singletons (hms true)) hgiven)

/-- A disjunction, for either polarity. -/
theorem has_disj {bs : List (List Shape)}
    (ih : ∀ b ∈ bs, ∀ m ∈ b, m.Has ctx targets leaf Given P) :
    (disj h bs).Has ctx targets leaf Given P := by
  intro path negate hleaf given hgiven
  -- a leaf of a member is a leaf of the whole
  have hbs : ∀ negate, ∀ b ∈ unsharedBranches ctx negate bs, ∀ m ∈ b,
      m.Has targets (h.path.or path) Given P := by
    intro negate b hb m hm
    rw [unsharedBranches_eq_map] at hb
    obtain ⟨b', hb', rfl⟩ := List.mem_map.1 hb
    obtain ⟨m', hm', rfl⟩ := List.mem_map.1 hm
    exact ih b' hb' m' hm' _ negate fun p c hl => hleaf p c (.disj hd hb' hm' hl)
  show Ensures ((disj h bs).unshared ctx _ given negate) _
  rw [unshared, hd]
  cases bs.isEmpty with
  | true => exact .error _
  | false =>
    cases bs.any List.isEmpty with
    | true => exact .error _
    | false =>
      cases negate with
      | false =>
        exact Unshared.ensures_tag (k.tag h.id)
          (Unshared.Member.ensures_disjunction k.combines (hbs false) hgiven)
      | true =>
        refine Unshared.ensures_tag (k.tag h.id)
          (Unshared.Member.ensures_conjunction k.combines.unite (fun m hm => ?_) hgiven)
        obtain ⟨b, hb, rfl⟩ := List.mem_map.1 hm
        exact Unshared.Member.has_negatedBranch k.combines (hbs true b hb)

/-- A negation, which plans the other polarity of what it negates. -/
theorem has_neg {inner : Shape} (ih : inner.Has ctx targets leaf Given P) :
    (neg h inner).Has ctx targets leaf Given P := by
  intro path negate hleaf given hgiven
  show Ensures ((neg h inner).unshared ctx _ given negate) _
  rw [unshared, hd]
  exact Unshared.ensures_tag (k.tag h.id) (ih (h.path.or path) (!negate)
    (fun p c hl => hleaf p c (.neg hd hl)) given hgiven)

end Active

/-- Every plan of the shape has the property. -/
theorem ensures_kept (k : Plan.Kept ctx targets leaf Given P) (s : Shape) :
    s.Has ctx targets leaf Given P := by
  induction s using active_induction with
  | deactivated s hd => exact has_of_deactivated hd
  | constraint h c hd => exact has_constraint k hd c
  | conj h ms hd ih => exact has_conj k hd ih
  | disj h bs hd ih => exact has_disj k hd ih
  | neg h inner hd ih => exact has_neg k hd ih

end Shape

end GraphShapes
