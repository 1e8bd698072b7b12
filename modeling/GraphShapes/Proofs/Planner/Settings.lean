import GraphShapes.Proofs.Planner.Inherited

/-!
# What planning reads of its settings

A pass is planned over its data, for its delta and with regard to whether there was data before. Of
its settings, planning reads which targets the pass looks at, and otherwise only what decides how
often things are read or what is reported on the way. So two contexts with the same data, restricted
to the same delta, plan the same (`Shape.unshared_eq_of_samePass`), unless the targets that are
handed down are refused: who refuses is asked by a splitter even where no member is left to ask.
-/

namespace GraphShapes

/-- The contexts show the same pass, perhaps under different settings. -/
structure Context.SamePass (ctx ctx' : Context) : Prop where
  source : ctx.source = ctx'.source
  restriction : ctx.restriction = ctx'.restriction
  baseEmpty : ctx.baseEmpty = ctx'.baseEmpty

/-- The same pass looks at the same targets. -/
theorem Context.SamePass.scan {ctx ctx' : Context} (h : ctx.SamePass ctx') (frame : Frame) :
    ctx.scan frame = ctx'.scan frame := by
  rw [Context.scan, Context.scan, targetMode, targetMode, h.source, h.restriction]

namespace Unshared

/-- Whoever is to hand down targets does. -/
def Ready (given : Option Offer) : Prop := ∀ e, given ≠ some (.error e)

theorem ready_none : Ready none := fun _ h => nomatch h

theorem ready_ok (q : Plan) : Ready (some (.ok q)) := fun _ h => nomatch h

/-- A constraint is planned over the source, for what the scan of the pass delivers. -/
theorem plan_same {ctx ctx' : Context} (h : ctx.SamePass ctx') (frame : Frame) (id : ShapeId)
    (c : Constraint) (given : Option Offer) (negate : Bool) :
    plan ctx frame id c given negate = plan ctx' frame id c given negate := by
  have hfocus : focus ctx frame given = focus ctx' frame given := by
    cases given with
    | none => rw [focus, focus, h.scan]
    | some given => rfl
  have hviolations : violationsOf ctx frame c = violationsOf ctx' frame c := by
    funext targets
    rw [violationsOf, violationsOf, h.source]
  simp only [plan, satisfactionsOf, hfocus, hviolations]

namespace Member

/-- The members are planned alike for targets that are not refused, and answer alike. -/
structure Same (m m' : Member) : Prop where
  plan : ∀ (frame : Frame) {given : Option Offer}, Ready given →
    m.plan frame given = m'.plan frame given
  hasOwnPath : m.hasOwnPath = m'.hasOwnPath
  touched : m.touched = m'.touched

/-- Members of which each is the same as its counterpart. -/
abbrev AllSame : List Member → List Member → Prop := List.Forall₂ Same

/-- Branches of which each member is the same as its counterpart. -/
abbrev BranchesSame : List (List Member) → List (List Member) → Prop := List.Forall₂ AllSame

variable {ctx ctx' : Context} {frame : Frame} {given : Option Offer} {ms ms' : List Member}
  {bs bs' : List (List Member)}

/-- Members that are the same are planned the same, one by one. -/
theorem planEach_same {plan plan' : Member → Except PlanError (Option Plan)}
    (hplan : ∀ m m', m.Same m' → plan m = plan' m') (h : AllSame ms ms') :
    planEach frame plan ms = planEach frame plan' ms' := by
  induction h with
  | nil => rfl
  | cons hm _ ih => rw [planEach, planEach, hplan _ _ hm, ih, hm.hasOwnPath]

/-- Their union is planned the same. -/
theorem unite_same {plan plan' : Member → Except PlanError (Option Plan)}
    (hplan : ∀ m m', m.Same m' → plan m = plan' m') (h : AllSame ms ms') :
    unite frame plan ms = unite frame plan' ms' := by
  unfold unite
  rw [planEach_same hplan h]

/-- A branch is planned the same, for targets that are not refused. -/
theorem branch_same (hgiven : Ready given) (h : AllSame ms ms') :
    branch frame ms given = branch frame ms' given :=
  unite_same (fun _ _ hm => hm.plan frame hgiven) h

/-- If the given targets are not refused, the candidates are not. -/
theorem ready_candidates (hgiven : Ready given) (bs : List (List Member)) :
    Ensures (candidates ctx frame bs given) fun r => ∀ given ∈ r, Ready given := by
  cases given with
  | some given =>
    cases given with
    | error e => exact absurd rfl (hgiven e)
    | ok q =>
      unfold candidates
      cases ctx.config.cacheSelectNodes <;> exact .pure_some (ready_ok q)
  | none =>
    unfold candidates
    cases ctx.baseEmpty with
    | true => exact .pure_some ready_none
    | false =>
      refine Ensures.after fun inputs => ?_
      cases inputs with
      | nil => exact .pure_none
      | cons _ _ => exact .pure_some (ready_ok _)

/-- The branches of a disjunction are planned the same. -/
theorem planBranches_same (hgiven : Ready given) (h : BranchesSame bs bs') :
    planBranches frame given bs = planBranches frame given bs' := by
  induction h with
  | nil => rfl
  | cons hb _ ih => rw [planBranches, planBranches, branch_same hgiven hb, ih]

/-- Members that are the same set a path of their own alike. -/
theorem any_hasOwnPath_same (path : Option Path) (h : AllSame ms ms') :
    (ms.any fun m => m.hasOwnPath path) = ms'.any fun m => m.hasOwnPath path :=
  any_eq_of_forall₂ (h.imp fun _ _ hm => congrFun hm.hasOwnPath path)

/-- The intersection of branches is planned the same. -/
theorem intersectBranches_same (hgiven : Ready given) (h : BranchesSame bs bs') :
    intersectBranches frame bs given = intersectBranches frame bs' given := by
  unfold intersectBranches
  rw [planBranches_same hgiven h,
    any_eq_of_forall₂ (h.imp fun _ _ hb => any_hasOwnPath_same frame.path hb)]

/-- A disjunction is malformed on both sides or on neither. -/
theorem isEmpty_same (h : BranchesSame bs bs') :
    (bs.isEmpty || bs.any List.isEmpty) = (bs'.isEmpty || bs'.any List.isEmpty) := by
  have hany : bs.any List.isEmpty = bs'.any List.isEmpty := by
    refine any_eq_of_forall₂ (h.imp fun b b' hb => ?_)
    cases hb <;> rfl
  rw [hany]
  cases h <;> rfl

/-- Members each of which is a branch of its own. -/
theorem forall₂_singletons_same (h : AllSame ms ms') :
    BranchesSame (ms.map fun m => [m]) (ms'.map fun m => [m]) :=
  List.rel_map (fun _ _ hm => .cons hm .nil) h

/-- A delta bears on members alike. -/
theorem anyTouched_same {delta : Delta} (h : AllSame ms ms') :
    negatedBranch.anyTouched frame delta ms = negatedBranch.anyTouched frame delta ms' := by
  induction h with
  | nil => rfl
  | cons hm _ ih =>
    rw [negatedBranch.anyTouched, negatedBranch.anyTouched, hm.touched, ih]

section SamePass

variable (hpass : ctx.SamePass ctx')
include hpass

/-- The same pass passes over the same members. -/
theorem planTouched_same {m m' : Member} (h : m.Same m') :
    m.planTouched ctx frame = m'.planTouched ctx' frame := by
  unfold planTouched
  rw [h.touched, h.plan frame ready_none, hpass.restriction]

/-- It plans a conjunction the same. -/
theorem conjunction_same (hgiven : Ready given) (h : AllSame ms ms') :
    conjunction ctx frame ms given = conjunction ctx' frame ms' given := by
  refine unite_same (fun m m' hm => ?_) h
  cases given with
  | none => exact planTouched_same hpass hm
  | some _ => exact hm.plan frame hgiven

/-- It plans the violators of every branch the same. -/
theorem candidatesOf_same (h : BranchesSame bs bs') :
    candidatesOf ctx frame bs = candidatesOf ctx' frame bs' := by
  induction h with
  | nil => rfl
  | cons hb _ ih => rw [candidatesOf, candidatesOf, conjunction_same hpass ready_none hb, ih]

/-- What is handed down is handed on, read into a splitter or not. -/
theorem candidates_same (hgiven : Ready given) (h : BranchesSame bs bs') :
    candidates ctx frame bs given = candidates ctx' frame bs' given := by
  cases given with
  | none =>
    unfold candidates
    rw [candidatesOf_same hpass h, hpass.baseEmpty]
  | some given =>
    cases given with
    | error e => exact absurd rfl (hgiven e)
    | ok q =>
      have hcandidates : ∀ (ctx : Context) (bs : List (List Member)),
          candidates ctx frame bs (some (.ok q)) = .ok (some (some (.ok q))) := by
        intro ctx bs
        unfold candidates
        cases ctx.config.cacheSelectNodes <;> rfl
      rw [hcandidates, hcandidates]

variable (frame) in
/-- Everything that a disjunction does but to forward a single member. -/
theorem candidates_bind_same (hgiven : Ready given) (h : BranchesSame bs bs') :
    (do
      match ← candidates ctx frame bs given with
      | none => return none
      | some targets => intersectBranches frame bs targets) =
    (do
      match ← candidates ctx' frame bs' given with
      | none => return none
      | some targets => intersectBranches frame bs' targets : Except PlanError (Option Plan)) := by
  have hready : Ensures (candidates ctx' frame bs' given) fun r => ∀ given ∈ r, Ready given :=
    ready_candidates hgiven bs'
  rw [candidates_same hpass hgiven h]
  cases hc : candidates ctx' frame bs' given with
  | error e => rfl
  | ok r =>
    cases r with
    | none => rfl
    | some targets => exact intersectBranches_same (hready _ hc targets rfl) h

/-- It plans a disjunction the same, also where a single member is forwarded. -/
theorem disjunction_same (hgiven : Ready given) (h : BranchesSame bs bs') :
    disjunction ctx frame bs given = disjunction ctx' frame bs' given := by
  unfold disjunction
  rw [isEmpty_same h]
  cases bs'.isEmpty || bs'.any List.isEmpty with
  | true => rfl
  | false =>
    simp only [Bool.false_eq_true, if_false]
    have hrest := candidates_bind_same frame hpass hgiven h
    -- only a single branch with a single member is forwarded
    cases h with
    | nil => exact hrest
    | cons hb hbs =>
      cases hbs with
      | cons _ _ => cases hb with
        | nil => exact hrest
        | cons _ hms => cases hms <;> exact hrest
      | nil =>
        cases hb with
        | nil => exact hrest
        | cons hm hms =>
          cases hms with
          | nil => exact hm.plan frame hgiven
          | cons _ _ => exact hrest

/-- The negation of a branch, as a member. -/
theorem negatedBranch_same (h : AllSame ms ms') :
    (negatedBranch ctx ms).Same (negatedBranch ctx' ms') where
  plan _ _ hgiven := disjunction_same hpass hgiven (forall₂_singletons_same h)
  hasOwnPath := funext fun path => any_hasOwnPath_same path h
  touched := funext fun _ => funext fun _ => anyTouched_same h

end SamePass

end Member

end Unshared

open Unshared (Ready)

namespace Shape

variable {ctx ctx' : Context}

/-- Planned without splitters, the shape comes to the same in both contexts. -/
abbrev PlansSame (ctx ctx' : Context) (s : Shape) : Prop :=
  ∀ (frame : Frame) {given : Option Offer} (negate : Bool), Ready given →
    s.unshared ctx frame given negate = s.unshared ctx' frame given negate

/-- The members of a conjunction, given that each is planned the same. -/
theorem members_same (negate : Bool) {ms : List Shape} (h : ∀ m ∈ ms, PlansSame ctx ctx' m) :
    Unshared.Member.AllSame (unsharedMembers ctx negate ms) (unsharedMembers ctx' negate ms) := by
  rw [unsharedMembers_eq_map, unsharedMembers_eq_map]
  exact forall₂_map_of_forall_mem fun m hm =>
    ⟨fun frame _ hgiven => h m hm frame negate hgiven, rfl, rfl⟩

/-- The members of all branches, given the same. -/
theorem branches_same (negate : Bool) : ∀ {bs : List (List Shape)},
    (∀ b ∈ bs, ∀ m ∈ b, PlansSame ctx ctx' m) →
      Unshared.Member.BranchesSame (unsharedBranches ctx negate bs)
        (unsharedBranches ctx' negate bs)
  | [], _ => .nil
  | _ :: _, h =>
    have ⟨hb, hbs⟩ := List.forall_mem_cons.1 h
    .cons (members_same negate hb) (branches_same negate hbs)

/-- The negated branches of a disjunction, given the same. -/
theorem negatedBranches_same (hpass : ctx.SamePass ctx') {bs : List (List Shape)}
    (h : ∀ b ∈ bs, ∀ m ∈ b, PlansSame ctx ctx' m) :
    Unshared.Member.AllSame
      ((unsharedBranches ctx true bs).map (Unshared.Member.negatedBranch ctx))
      ((unsharedBranches ctx' true bs).map (Unshared.Member.negatedBranch ctx')) :=
  List.rel_map (fun _ _ hb => Unshared.Member.negatedBranch_same hpass hb) (branches_same true h)

/-- Without splitters, a shape has the same plan in every context that shows the same pass. -/
theorem unshared_eq_of_samePass (hpass : ctx.SamePass ctx') (s : Shape) : PlansSame ctx ctx' s := by
  induction s using tree_induction with
  | constraint h c =>
    intro frame given negate _
    simp only [unshared, Unshared.plan_same hpass]
  | conj h ms ih =>
    intro frame given negate hgiven
    unfold unshared
    cases negate with
    | true =>
      simp only [if_true, Unshared.Member.disjunction_same hpass hgiven
        (Unshared.Member.forall₂_singletons_same (members_same true ih))]
    | false =>
      simp only [Bool.false_eq_true, if_false,
        Unshared.Member.conjunction_same hpass hgiven (members_same false ih)]
  | disj h bs ih =>
    intro frame given negate hgiven
    unfold unshared
    cases negate with
    | true =>
      simp only [if_true,
        Unshared.Member.conjunction_same hpass hgiven (negatedBranches_same hpass ih)]
    | false =>
      simp only [Bool.false_eq_true, if_false,
        Unshared.Member.disjunction_same hpass hgiven (branches_same false ih)]
  | neg h inner ih =>
    intro frame given negate hgiven
    unfold unshared
    rw [ih (frame.within h.path) (!negate) hgiven]

end Shape

end GraphShapes
