import GraphShapes.Proofs.Planner.Mirror
import GraphShapes.Proofs.Shape.Tree

/-!
# The planner with and without splitters

The planner comes to the same as `Shape.unshared`: `Shape.plan_comes`, by induction over the shape
tree. What conjunctions and disjunctions need to know of their members is `Member.Mirrors`, so
that each of them is treated once, whatever it is a conjunction or disjunction of.

So a shape can be planned exactly if `Shape.unshared` can, has a plan exactly if that has one, and
its plan delivers what that plan delivers by itself.
-/

namespace GraphShapes

open Planning (Comes)

/-! ## Constraints -/

section Constraints

variable {ctx : Context} {ss : Splitters} {frame : Frame}

/-- Two ways of being given targets, or both of not being given any. -/
abbrev GivenMirrors (ss : Splitters) : Option Provider → Option Offer → Prop :=
  Option.Rel (Provider.Mirrors ss)

/-- Targets that are given stay what they are when more splitters are allotted. -/
theorem GivenMirrors.mono {ss ss' : Splitters} {targets : Option Provider} {given : Option Offer}
    (h : GivenMirrors ss targets given) (hext : ss.Extends ss') :
    GivenMirrors ss' targets given := by
  cases h with
  | none => exact .none
  | some h => exact .some (h.mono hext)

/-- The distinct targets that a provider hands out. -/
theorem Provider.comes_focus {provider : Provider} {given : Offer}
    (h : provider.Mirrors ss given) :
    Comes provider.focus ss (Unshared.focus ctx frame (some given)) Plan.Mirrors :=
  (h .refl).bind fun _ hp => .pure ((hp.trim _).sort.unique none)

/-- The targets that a leaf looks at, given or selected. -/
theorem comes_focus {targets : Option Provider} {given : Option Offer}
    (h : GivenMirrors ss targets given) :
    Comes (ctx.focus frame targets) ss (Unshared.focus ctx frame given) Plan.Mirrors := by
  cases h with
  | none => exact .pure (.targetScan _)
  | some h => exact Provider.comes_focus h

/-- A splitter stands for its supply as a provider. -/
theorem Plan.Mirrors.provider {s : SplitterId} {layout : Layout} {q : Plan}
    (h : Plan.Mirrors ss (.reader s layout) q) :
    (Provider.splitter s layout).Mirrors ss (.ok q) :=
  fun hext => .pure (h.mono hext)

variable (ctx frame) in
/-- The violations of a constraint: a count reads its targets from a splitter twice, where the plan
without splitters has them twice. -/
theorem Constraint.comes_violations (c : Constraint) {targets : Option Provider}
    {given : Option Offer} (h : GivenMirrors ss targets given) :
    Comes (c.violations ctx frame targets) ss
      (do return Unshared.violationsOf ctx frame c (← Unshared.focus ctx frame given))
      Plan.Mirrors := by
  refine (comes_focus h).bind fun {ss' p q} _ hp => ?_
  by_cases hv : c.isValueLevel
  · simp only [hv, if_true, Unshared.violationsOf]
    exact .pure ((hp.valuesOf _ _).filter _ _)
  · simp only [hv, Unshared.violationsOf]
    exact (Planning.comes_share hp).bind fun _ hr =>
      .pure (hr.countValues (hr.valuesOf _ _) _ _)

variable (ctx frame) in
/-- The targets without a violation of a constraint. -/
theorem Constraint.comes_satisfactions (c : Constraint) {targets : Option Provider}
    {given : Option Offer} (h : GivenMirrors ss targets given) :
    Comes (c.satisfactions ctx frame targets) ss
      (do return Unshared.satisfactionsOf ctx frame c (← Unshared.focus ctx frame given))
      Plan.Mirrors := by
  refine (comes_focus h).bind fun {ss' p q} _ hp => ?_
  -- both sides of the anti join read the targets from one splitter
  refine (Planning.comes_share hp).bind (g := fun q => .ok (Unshared.satisfactionsOf ctx frame c q))
    fun {ss'' s q} _ hr => ?_
  exact (c.comes_violations ctx frame (.some hr.provider)).bind fun hext hv =>
    .pure ((hr.mono hext).antiJoin hv.distinctTargets)

/-- A constraint comes to the same, negated or not. -/
theorem Constraint.comes_plan (c : Constraint) (id : ShapeId) {targets : Option Provider}
    {given : Option Offer} (h : GivenMirrors ss targets given) (negate : Bool) :
    Comes (c.plan ctx frame id targets negate) ss (Unshared.plan ctx frame id c given negate)
      Plan.Mirrors := by
  have htag : ∀ {step : Planning Plan} {value : Except PlanError Plan},
      Comes step ss value Plan.Mirrors →
      Comes (do return Plan.tag (← step) id) ss (do return Plan.tag (← value) id) Plan.Mirrors :=
    fun hv => hv.bind fun _ hp => .pure (hp.tag id)
  cases negate with
  | false =>
    have hv := htag (c.comes_violations ctx frame h)
    rw [bind_assoc] at hv
    exact hv
  | true =>
    have hv := htag (c.comes_satisfactions ctx frame h)
    rw [bind_assoc] at hv
    exact hv

end Constraints

/-! ## Conjunctions and disjunctions -/

/-- A plan or none, on both sides. -/
abbrev Plan.OptMirrors (ss : Splitters) : Option Plan → Option Plan → Prop :=
  Option.Rel (Plan.Mirrors ss)

/-- The member is planned to the same with and without splitters, and answers alike. -/
structure Member.Mirrors (m : Member) (m' : Unshared.Member) : Prop where
  plan : ∀ {ss : Splitters} {frame : Frame} {targets : Option Provider} {given : Option Offer},
    GivenMirrors ss targets given →
    Comes (m.plan frame targets) ss (m'.plan frame given) Plan.OptMirrors
  hasOwnPath : m.hasOwnPath = m'.hasOwnPath
  touched : m.touched = m'.touched

namespace Member

/-- Members of which each mirrors its counterpart. -/
abbrev AllMirror : List Member → List Unshared.Member → Prop := List.Forall₂ Member.Mirrors

variable {ctx : Context} {frame : Frame} {ss : Splitters} {targets : Option Provider}
  {given : Option Offer}

/-- Plans that mirror others are combined in the same layout. -/
theorem commonLayout_of_mirrors {ps qs : List Plan} (h : Plan.Mirrors.All ss ps qs)
    (ownPath : Bool) : commonLayout ps ownPath = commonLayout qs ownPath := by
  unfold commonLayout
  rw [h.layouts]

/-- They are cut in the same way before they are united. -/
theorem unionInputs_of_mirrors {ps qs : List Plan} (h : Plan.Mirrors.All ss ps qs)
    (ownPath : Bool) :
    Plan.Mirrors.All ss (unionInputs ps ownPath) (unionInputs qs ownPath) := by
  unfold unionInputs
  rw [commonLayout_of_mirrors h]
  split
  · exact h
  · exact h.map fun _ _ hpq => hpq.trim _

/-- A member is passed over for the same deltas. -/
theorem Mirrors.comes_planTouched {m : Member} {m' : Unshared.Member} (h : m.Mirrors m') :
    Comes (m.planTouched ctx frame) ss (m'.planTouched ctx frame) Plan.OptMirrors := by
  unfold planTouched Unshared.Member.planTouched
  cases ctx.restriction with
  | none => exact h.plan .none
  | some delta =>
    rw [h.touched]
    refine (Planning.comes_ofError _).bind fun {_ a b} _ hab => ?_
    subst hab
    cases a with
    | false => exact .pure .none
    | true => exact h.plan .none

/-- Planning the members one by one. -/
theorem comes_planEach {plan : Member → Planning (Option Plan)}
    {plan' : Unshared.Member → Except PlanError (Option Plan)} :
    ∀ {ms : List Member} {ms' : List Unshared.Member} {ss : Splitters},
      (∀ {ss' : Splitters} {m m'}, ss.Extends ss' → m.Mirrors m' →
        Comes (plan m) ss' (plan' m') Plan.OptMirrors) →
      AllMirror ms ms' →
      Comes (planEach frame plan ms) ss (Unshared.Member.planEach frame plan' ms')
        fun ss' a b => Plan.Mirrors.All ss' a.1 b.1 ∧ a.2 = b.2
  | _, _, _, _, .nil => .pure ⟨.nil, rfl⟩
  | _, _, _, hplan, .cons hm hms => by
    refine (hplan .refl hm).bind fun hext hp => ?_
    -- the other members find the splitters of this one already allotted
    have hrest := comes_planEach (fun hext' => hplan (hext.trans hext')) hms
    cases hp with
    | none => exact hrest
    | some hp =>
      refine hrest.bind fun hext' hr => .pure ⟨.cons (hp.mono hext') hr.1, ?_⟩
      rw [hm.hasOwnPath, hr.2]

/-- The union of what the members come to. -/
theorem comes_unite {plan : Member → Planning (Option Plan)}
    {plan' : Unshared.Member → Except PlanError (Option Plan)}
    (hplan : ∀ {ss' : Splitters} {m m'}, ss.Extends ss' → m.Mirrors m' →
      Comes (plan m) ss' (plan' m') Plan.OptMirrors)
    {ms : List Member} {ms' : List Unshared.Member} (h : AllMirror ms ms') :
    Comes (unite frame plan ms) ss (Unshared.Member.unite frame plan' ms') Plan.OptMirrors := by
  refine (comes_planEach hplan h).bind fun {ss' a b} _ hr => ?_
  obtain ⟨ps, own⟩ := a
  obtain ⟨qs, own'⟩ := b
  obtain ⟨hps, rfl⟩ := hr
  cases hps with
  | nil => exact .pure .none
  | @cons p q ps qs hp hps =>
    have hu := Plan.Mirrors.union (unionInputs_of_mirrors (.cons hp hps) own)
    show Comes (do
      return some (Plan.unique (← Planning.ofOp (Plan.union? (unionInputs (p :: ps) own))) none))
      ss' (.ok (some (Plan.unique (.union (unionInputs (q :: qs) own)) none))) _
    rw [union?_unionInputs (List.cons_ne_nil p ps)]
    exact .pure (.some (hu.unique none))

/-- A conjunction comes to the same, for given targets or none. -/
theorem comes_conjunction (hgiven : GivenMirrors ss targets given) {ms : List Member}
    {ms' : List Unshared.Member} (h : AllMirror ms ms') :
    Comes (conjunction ctx frame ms targets) ss (Unshared.Member.conjunction ctx frame ms' given)
      Plan.OptMirrors := by
  refine comes_unite (fun hext hm => ?_) h
  cases hgiven with
  | none => exact hm.comes_planTouched
  | some hp => exact hm.plan ((GivenMirrors.mono (.some hp) hext))

/-- A branch comes to the same. -/
theorem comes_branch (hgiven : GivenMirrors ss targets given) {ms : List Member}
    {ms' : List Unshared.Member} (h : AllMirror ms ms') :
    Comes (branch frame ms targets) ss (Unshared.Member.branch frame ms' given)
      Plan.OptMirrors :=
  comes_unite (fun hext hm => hm.plan (hgiven.mono hext)) h

/-- Branches of which each member mirrors its counterpart. -/
abbrev BranchesMirror : List (List Member) → List (List Unshared.Member) → Prop :=
  List.Forall₂ AllMirror

/-- The violators of every branch come to the same. -/
theorem comes_candidatesOf : ∀ {bs : List (List Member)} {bs' : List (List Unshared.Member)}
    {ss : Splitters}, BranchesMirror bs bs' →
      Comes (candidatesOf ctx frame bs) ss (Unshared.Member.candidatesOf ctx frame bs')
        fun ss' ps qs => Plan.Mirrors.All ss' ps qs ∧ ∀ p ∈ ps, p.layout = .aggregated
  | _, _, _, .nil => .pure ⟨.nil, fun _ hp => absurd hp List.not_mem_nil⟩
  | _, _, _, .cons hb hbs => by
    refine (comes_conjunction .none hb).bind fun _ hp => ?_
    cases hp with
    | none => exact comes_candidatesOf hbs
    | some hp =>
      exact (comes_candidatesOf hbs).bind fun hext hr =>
        .pure ⟨.cons ((hp.mono hext).trim _) hr.1, List.forall_mem_cons.2 ⟨rfl, hr.2⟩⟩

/-- The two ways of saying where branches get their targets from. -/
inductive Candidates.Mirrors (ss : Splitters) : Candidates → Option (Option Offer) → Prop where
  | unrestricted : Candidates.Mirrors ss .unrestricted (some none)
  | given {provider : Provider} {given : Offer} (h : provider.Mirrors ss given) :
    Candidates.Mirrors ss (.given provider) (some (some given))
  | absent : Candidates.Mirrors ss .absent none

/-- The candidates of a disjunction come to the same, whether or not they are shared. -/
theorem comes_candidates (hgiven : GivenMirrors ss targets given) {bs : List (List Member)}
    {bs' : List (List Unshared.Member)} (h : BranchesMirror bs bs') :
    Comes (candidates ctx frame bs targets) ss (Unshared.Member.candidates ctx frame bs' given)
      Candidates.Mirrors := by
  cases hgiven with
  | some hp =>
    cases hc : ctx.config.cacheSelectNodes with
    | true =>
      simp only [candidates, Unshared.Member.candidates, hc, if_true]
      refine (hp .refl).bind fun _ hq => ?_
      exact (Planning.comes_share hq).bind (g := fun q => .ok (some (some (.ok q))))
        fun _ hr => .pure (Candidates.Mirrors.given hr.provider)
    | false =>
      simp only [candidates, Unshared.Member.candidates, hc, Bool.false_eq_true, if_false]
      exact .pure (Candidates.Mirrors.given hp)
  | none =>
    cases hb : ctx.baseEmpty with
    | true =>
      simp only [candidates, Unshared.Member.candidates, hb, if_true]
      exact .pure Candidates.Mirrors.unrestricted
    | false =>
      simp only [candidates, Unshared.Member.candidates, hb, Bool.false_eq_true, if_false]
      refine (comes_candidatesOf h).bind fun {ss' ps qs} _ hps => ?_
      obtain ⟨hps, hagg⟩ := hps
      cases hps with
      | nil => exact .pure Candidates.Mirrors.absent
      | @cons p q ps qs hp hps =>
        -- sharing the union of the candidates leaves what it means as it is
        have hu := (Plan.Mirrors.union (.cons hp hps)).unique none
        show Comes (Planning.ofOp (Plan.union? (p :: ps)) >>= _) ss' _ _
        rw [Plan.union?_eq_ok (List.cons_ne_nil p ps) hagg]
        exact (Planning.comes_share hu).bind (g := fun q => .ok (some (some (.ok q))))
          fun _ hr => .pure (Candidates.Mirrors.given hr.provider)

/-- The branches of a disjunction come to the same, one after the other. -/
theorem comes_planBranches : ∀ {bs : List (List Member)} {bs' : List (List Unshared.Member)}
    {ss : Splitters}, GivenMirrors ss targets given → BranchesMirror bs bs' →
      Comes (planBranches frame targets bs) ss (Unshared.Member.planBranches frame given bs')
        Plan.Mirrors.All
  | _, _, _, _, .nil => .pure .nil
  | _, _, _, hgiven, .cons hb hbs => by
    refine (comes_branch hgiven hb).bind fun hext hp => ?_
    have hrest := comes_planBranches (hgiven.mono hext) hbs
    cases hp with
    | none => exact hrest
    | some hp => exact hrest.bind fun hext' hr => .pure (.cons (hp.mono hext') hr)

/-- Members that mirror others set a path of their own alike. -/
theorem any_hasOwnPath_of_mirror {path : Option Path} {ms : List Member}
    {ms' : List Unshared.Member} (h : AllMirror ms ms') :
    (ms.any fun m => m.hasOwnPath path) = ms'.any fun m => m.hasOwnPath path :=
  any_eq_of_forall₂ (h.imp fun _ _ hm => congrFun hm.hasOwnPath path)

/-- The same for the members of branches. -/
theorem any_any_hasOwnPath_of_mirror {path : Option Path} {bs : List (List Member)}
    {bs' : List (List Unshared.Member)} (h : BranchesMirror bs bs') :
    (bs.any fun b => b.any fun m => m.hasOwnPath path) =
      bs'.any fun b => b.any fun m => m.hasOwnPath path :=
  any_eq_of_forall₂ (h.imp fun _ _ hb => any_hasOwnPath_of_mirror hb)

/-- A chain of equality joins. -/
theorem foldl_equalsJoin_mirrors : ∀ {ps qs : List Plan} {p q : Plan},
    Plan.Mirrors.All ss ps qs → p.Mirrors ss q →
      (ps.foldl (fun acc p => .equalsJoin acc p true) p).Mirrors ss
        (qs.foldl (fun acc p => .equalsJoin acc p true) q)
  | _, _, _, _, .nil, hp => hp
  | _, _, _, _, .cons h hs, hp => by
    rw [List.foldl_cons, List.foldl_cons]
    exact foldl_equalsJoin_mirrors hs (hp.equalsJoin h true)

/-- A chain of inner joins of distinct targets. -/
theorem foldl_innerJoin_mirrors : ∀ {ps qs : List Plan} {p q : Plan},
    Plan.Mirrors.All ss ps qs → p.Mirrors ss q →
      (ps.foldl (fun acc p => .innerJoin acc p.distinctTargets) p).Mirrors ss
        (qs.foldl (fun acc p => .innerJoin acc p.distinctTargets) q)
  | _, _, _, _, .nil, hp => hp
  | _, _, _, _, .cons h hs, hp => by
    rw [List.foldl_cons, List.foldl_cons]
    exact foldl_innerJoin_mirrors hs (hp.innerJoin h.distinctTargets)

/-- The intersection of branches, in either layout. -/
theorem intersection_mirrors {ps qs : List Plan} {p q : Plan} (layout : Layout)
    (hp : p.Mirrors ss q) (hps : Plan.Mirrors.All ss ps qs) :
    (intersection layout p ps).Mirrors ss (intersection layout q qs) := by
  have hu : (Plan.union [p]).Mirrors ss (.union [q]) := Plan.Mirrors.union (.cons hp .nil)
  cases hps with
  | nil =>
    cases layout with
    | tripleBased => exact hu.unique none
    | aggregated => exact hu.distinctTargets
  | cons h hs =>
    cases layout with
    | tripleBased => exact foldl_equalsJoin_mirrors (.cons h hs) hp
    | aggregated => exact foldl_innerJoin_mirrors (.cons h hs) hp.distinctTargets

/-- The intersection of branches comes to the same, and no join is refused. -/
theorem comes_intersectBranches (hgiven : GivenMirrors ss targets given)
    {bs : List (List Member)} {bs' : List (List Unshared.Member)} (h : BranchesMirror bs bs') :
    Comes (intersectBranches frame bs targets) ss
      (Unshared.Member.intersectBranches frame bs' given) Plan.OptMirrors := by
  unfold intersectBranches Unshared.Member.intersectBranches
  rw [any_any_hasOwnPath_of_mirror h]
  refine (comes_planBranches hgiven h).bind fun {ss' ps qs} _ hps => ?_
  cases hps with
  | nil => exact .pure .none
  | @cons p q ps qs hp hps =>
    simp only [← commonLayout_of_mirrors (.cons hp hps), intersect_eq_ok]
    generalize commonLayout (p :: ps) _ = layout
    have hj := intersection_mirrors layout hp hps
    cases layout with
    | tripleBased => exact .pure (a := some _) (b := some _) (.some hj)
    | aggregated => exact .pure (a := some _) (b := some _) (.some (hj.relabel .aggregated))

variable (ctx frame) in
/-- Everything that a disjunction does but to forward a single member. -/
theorem comes_candidates_bind (hgiven : GivenMirrors ss targets given)
    {bs : List (List Member)} {bs' : List (List Unshared.Member)} (h : BranchesMirror bs bs') :
    Comes (do
      match ← candidates ctx frame bs targets with
      | .absent => return none
      | .unrestricted => intersectBranches frame bs none
      | .given provider => intersectBranches frame bs (some provider)) ss
      (do
        match ← Unshared.Member.candidates ctx frame bs' given with
        | none => return none
        | some targets => Unshared.Member.intersectBranches frame bs' targets)
      Plan.OptMirrors := by
  refine (comes_candidates hgiven h).bind fun _ hc => ?_
  cases hc with
  | unrestricted => exact comes_intersectBranches .none h
  | given hp => exact comes_intersectBranches (.some hp) h
  | absent => exact .pure .none

/-- A disjunction is malformed on both sides or on neither. -/
theorem isEmpty_of_mirror {bs : List (List Member)} {bs' : List (List Unshared.Member)}
    (h : BranchesMirror bs bs') :
    (bs.isEmpty || bs.any List.isEmpty) = (bs'.isEmpty || bs'.any List.isEmpty) := by
  have hany : bs.any List.isEmpty = bs'.any List.isEmpty := by
    refine any_eq_of_forall₂ (h.imp fun b b' hb => ?_)
    cases hb <;> rfl
  rw [hany]
  cases h <;> rfl

/-- A disjunction comes to the same, also where a single member is forwarded. -/
theorem comes_disjunction (hgiven : GivenMirrors ss targets given) {bs : List (List Member)}
    {bs' : List (List Unshared.Member)} (h : BranchesMirror bs bs') :
    Comes (disjunction ctx frame bs targets) ss
      (Unshared.Member.disjunction ctx frame bs' given) Plan.OptMirrors := by
  unfold disjunction Unshared.Member.disjunction
  rw [isEmpty_of_mirror h]
  cases hbad : bs'.isEmpty || bs'.any List.isEmpty with
  | true =>
    simp only [if_true]
    exact .throw_bind _
  | false =>
    simp only [Bool.false_eq_true, if_false]
    have hrest := comes_candidates_bind ctx frame hgiven h
    -- only a single branch with a single member is forwarded
    cases h with
    | nil => exact hrest
    | cons hb hbs =>
      cases hbs with
      | cons _ _ => cases hb with
        | nil => exact hrest
        | cons _ hms => cases hms <;> exact hrest
      | nil =>
        cases hb with
        | nil => exact hrest
        | cons hm hms =>
          cases hms with
          | nil => exact hm.plan hgiven
          | cons _ _ => exact hrest

/-- Members each of which is a branch of its own. -/
theorem forall₂_singletons {ms : List Member} {ms' : List Unshared.Member} (h : AllMirror ms ms') :
    BranchesMirror (ms.map fun m => [m]) (ms'.map fun m => [m]) := by
  induction h with
  | nil => exact .nil
  | cons hm _ ih => exact .cons (.cons hm .nil) ih

/-- A delta bears on a negated branch alike. -/
theorem anyTouched_of_mirror {delta : Delta} : ∀ {ms : List Member} {ms' : List Unshared.Member},
    AllMirror ms ms' → negatedBranch.anyTouched frame delta ms =
      Unshared.Member.negatedBranch.anyTouched frame delta ms'
  | _, _, .nil => rfl
  | _, _, .cons hm hms => by
    rw [negatedBranch.anyTouched, Unshared.Member.negatedBranch.anyTouched, hm.touched,
      anyTouched_of_mirror hms]

/-- The negation of a branch, as a member. -/
theorem negatedBranch_mirrors {ms : List Member} {ms' : List Unshared.Member}
    (h : AllMirror ms ms') :
    (negatedBranch ctx ms).Mirrors (Unshared.Member.negatedBranch ctx ms') where
  plan hgiven := comes_disjunction hgiven (forall₂_singletons h)
  hasOwnPath := funext fun _ => any_hasOwnPath_of_mirror h
  touched := funext fun _ => funext fun _ => anyTouched_of_mirror h

end Member

/-! ## Shapes -/

namespace Shape

variable {ctx : Context}

/-- Tagging and reporting a plan. -/
theorem comes_finish {ss : Splitters} (shape : Shape) {p q : Option Plan}
    (h : Plan.OptMirrors ss p q) :
    Comes (finish ctx shape p) ss (.ok (q.map (Plan.tag · shape.id))) Plan.OptMirrors := by
  cases h with
  | none => exact .pure .none
  | some hp =>
    exact (Planning.comes_report ctx shape _).bind
      (g := fun _ => .ok (some (Plan.tag _ shape.id)))
      fun hext _ => .pure (.some ((hp.mono hext).tag shape.id))

/-- Planned for whatever targets, negated or not, the shape comes to the same without splitters. -/
def PlansAlike (ctx : Context) (s : Shape) : Prop :=
  ∀ {ss : Splitters} {frame : Frame} {targets : Option Provider} {given : Option Offer}
    (negate : Bool), GivenMirrors ss targets given →
    Comes (s.plan ctx frame targets negate) ss (s.unshared ctx frame given negate) Plan.OptMirrors

/-- The members of a conjunction, given that each comes to the same. -/
theorem members_mirror (negate : Bool) : ∀ {ms : List Shape}, (∀ m ∈ ms, PlansAlike ctx m) →
    Member.AllMirror (members ctx negate ms) (unsharedMembers ctx negate ms)
  | [], _ => .nil
  | _ :: _, h =>
    have ⟨hm, hms⟩ := List.forall_mem_cons.1 h
    .cons ⟨fun hgiven => hm negate hgiven, rfl, rfl⟩ (members_mirror negate hms)

/-- The members of all branches, given the same. -/
theorem branchMembers_mirror (negate : Bool) : ∀ {bs : List (List Shape)},
    (∀ b ∈ bs, ∀ m ∈ b, PlansAlike ctx m) →
    Member.BranchesMirror (branchMembers ctx negate bs) (unsharedBranches ctx negate bs)
  | [], _ => .nil
  | _ :: _, h =>
    have ⟨hb, hbs⟩ := List.forall_mem_cons.1 h
    .cons (members_mirror negate hb) (branchMembers_mirror negate hbs)

/-- The negated branches of a disjunction, given the same. -/
theorem negatedBranches_mirror {bs : List (List Shape)}
    (h : ∀ b ∈ bs, ∀ m ∈ b, PlansAlike ctx m) :
    Member.AllMirror ((branchMembers ctx true bs).map (Member.negatedBranch ctx))
      ((unsharedBranches ctx true bs).map (Unshared.Member.negatedBranch ctx)) := by
  refine List.rel_map (fun _ _ hb => ?_) (branchMembers_mirror true h)
  exact Member.negatedBranch_mirrors hb

/-- Planning a shape comes to the same with and without splitters. -/
theorem plan_comes (ctx : Context) (s : Shape) : PlansAlike ctx s := by
  induction s using tree_induction with
  | constraint h c =>
    intro ss frame targets given negate hgiven
    unfold plan unshared
    cases h.deactivated with
    | true => exact .pure .none
    | false =>
      exact (c.comes_plan h.id hgiven negate).bind fun _ hp => .pure (.some hp)
  | conj h ms ih =>
    intro ss frame targets given negate hgiven
    unfold plan unshared
    cases h.deactivated with
    | true => exact .pure .none
    | false =>
      cases ms.isEmpty with
      | true => exact .throw_bind _
      | false =>
        cases negate with
        | true =>
          exact (Member.comes_disjunction hgiven
            (Member.forall₂_singletons (members_mirror true ih))).bind fun _ hp => comes_finish _ hp
        | false =>
          exact (Member.comes_conjunction hgiven (members_mirror false ih)).bind
            fun _ hp => comes_finish _ hp
  | disj h bs ih =>
    intro ss frame targets given negate hgiven
    unfold plan unshared
    cases h.deactivated with
    | true => exact .pure .none
    | false =>
      cases bs.isEmpty with
      | true => exact .throw_bind _
      | false =>
        cases bs.any List.isEmpty with
        | true => exact .throw_bind _
        | false =>
          cases negate with
          | true =>
            exact (Member.comes_conjunction hgiven (negatedBranches_mirror ih)).bind
              fun _ hp => comes_finish _ hp
          | false =>
            exact (Member.comes_disjunction hgiven (branchMembers_mirror false ih)).bind
              fun _ hp => comes_finish _ hp
  | neg h inner ih =>
    intro ss frame targets given negate hgiven
    unfold plan unshared
    cases h.deactivated with
    | true => exact .pure .none
    | false => exact (ih (!negate) hgiven).bind fun _ hp => comes_finish _ hp

end Shape

end GraphShapes
