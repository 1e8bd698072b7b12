import GraphShapes.Proofs.Cursor.Collect
import GraphShapes.Proofs.Planner.Collect
import GraphShapes.Proofs.Planner.Defects

/-!
# The splitters that planning allots

Planning allots a splitter before it builds a reader of it, so a plan and every supply read only
splitters that were there already. `Planning.Allots` says this of one step, from any layered
splitters on; it is carried through the planner definition by definition, as the other facts about
planning are, and holds of every shape (`Shape.allots_plan`).

This is what the cursors need: for every shape, reading its plan step by step brings exactly what
the plan means (`Shape.pull_eq_collect`). All that is said about what a shape collects thereby
holds of the cursors, for instance that a bulk pass brings the rows of the shape tree (`pull_bulk`).
-/

namespace GraphShapes

/-! ## Plans that read what is there -/

/-- All splitters that the plan reads are below the number. -/
def Plan.ReadsBelow (n : Nat) (p : Plan) : Prop := ∀ s ∈ p.readSplitters, s < n

namespace Plan

variable {n m : Nat} {p q : Plan}

/-- More splitters leave a plan reading only what is there. -/
theorem ReadsBelow.mono (h : p.ReadsBelow n) (hle : n ≤ m) : p.ReadsBelow m :=
  fun s hs => Nat.lt_of_lt_of_le (h s hs) hle

/-- A reader reads its splitter and nothing else. -/
theorem readsBelow_reader {s : SplitterId} {layout : Layout} (h : s < n) :
    (reader s layout).ReadsBelow n := by
  intro t ht
  obtain rfl := List.mem_singleton.1 ht
  exact h

theorem readsBelow_targetScan (scan : TargetScan) : (targetScan scan).ReadsBelow n :=
  fun _ hs => absurd hs List.not_mem_nil

/-- An operator with two inputs reads what its inputs read. -/
theorem ReadsBelow.append (h : p.ReadsBelow n) (h' : q.ReadsBelow n) :
    ∀ s ∈ p.readSplitters ++ q.readSplitters, s < n :=
  fun s hs => (List.mem_append.1 hs).elim (h s) (h' s)

theorem ReadsBelow.distinctTargets (h : p.ReadsBelow n) : p.distinctTargets.ReadsBelow n := h

/-- A union reads what its inputs read. -/
theorem readsBelow_union : ∀ {ps : List Plan}, (∀ p ∈ ps, p.ReadsBelow n) → (union ps).ReadsBelow n
  | [], _ => fun _ hs => absurd hs List.not_mem_nil
  | _ :: _, h =>
    have ⟨hp, hps⟩ := List.forall_mem_cons.1 h
    fun s hs => (List.mem_append.1 hs).elim (hp s) (readsBelow_union hps s)

end Plan

/-- A supply that reads only what is there becomes one more layer. -/
theorem Splitters.Layered.push {ss : Splitters} {supply : Plan} (h : ss.Layered)
    (hreads : supply.ReadsBelow ss.size) : Splitters.Layered (ss.push supply) := by
  intro s supply' hs
  rw [Array.getElem?_push] at hs
  by_cases hlast : s = ss.size
  · rw [if_pos hlast] at hs
    obtain rfl := Option.some.inj hs
    exact hlast ▸ hreads
  · rw [if_neg hlast] at hs
    exact h s supply' hs

theorem Splitters.layered_empty : Splitters.Layered #[] := nofun

/-! ## Steps of planning -/

namespace Planning

variable {α β : Type} {n : Nat} {P : Nat → α → Prop} {Q : Nat → β → Prop}

/-- From any layered splitters on, `n` or more, the step leaves layered splitters, no fewer than
`n`. If it does not fail, what it comes to has the property `P` for their number. -/
def Allots (n : Nat) (step : Planning α) (P : Nat → α → Prop) : Prop :=
  ∀ draft : Draft, draft.splitters.Layered → n ≤ draft.splitters.size →
    (step.run.run draft).2.splitters.Layered ∧ n ≤ (step.run.run draft).2.splitters.size ∧
      ∀ a, (step.run.run draft).1 = .ok a → P (step.run.run draft).2.splitters.size a

/-- A step that only answers has to answer with something that stays right however many splitters
there are. -/
theorem Allots.pure {a : α} (h : ∀ m, n ≤ m → P m a) : Allots n (Pure.pure a) P := by
  intro draft hlayered hsize
  refine ⟨hlayered, hsize, fun b hb => ?_⟩
  obtain rfl : a = b := Except.ok.inj hb
  exact h _ hsize

/-- A step that fails allots nothing, whatever would have followed. -/
theorem Allots.throw_bind (e : PlanError) {f : α → Planning β} :
    Allots n (MonadExcept.throw e >>= f) Q :=
  fun _ hlayered hsize => ⟨hlayered, hsize, nofun⟩

/-- One step after the other: the second may rely on all splitters that the first has left. -/
theorem Allots.bind {step : Planning α} {f : α → Planning β} (h : Allots n step P)
    (hf : ∀ m a, n ≤ m → P m a → Allots m (f a) Q) : Allots n (step >>= f) Q := by
  intro draft hlayered hsize
  have hrun : (step >>= f).run.run draft =
      match step.run.run draft with | (a, draft') => ExceptT.bindCont f a draft' := rfl
  obtain ⟨hlayered', hsize', hP⟩ := h draft hlayered hsize
  rw [hrun]
  cases hstep : step.run.run draft with
  | mk result later =>
    rw [hstep] at hlayered' hsize' hP
    cases result with
    | error e => exact ⟨hlayered', hsize', nofun⟩
    | ok a =>
      obtain ⟨hlayered'', hsize'', hQ⟩ := hf _ a hsize' (hP a rfl) later hlayered' (Nat.le_refl _)
      exact ⟨hlayered'', Nat.le_trans hsize' hsize'', hQ⟩

/-- Failing or succeeding without planning allots nothing. -/
theorem allots_ofError (x : Except Error α) : Allots n (ofError x) fun _ _ => True := by
  intro draft hlayered hsize
  cases x with
  | error e => exact ⟨hlayered, hsize, nofun⟩
  | ok a => exact ⟨hlayered, hsize, fun _ _ => trivial⟩

/-- A splitter is numbered by how many there were, so its readers read below the new number. -/
theorem allots_share {supply : Plan} (h : supply.ReadsBelow n) :
    Allots n (share supply) fun m s => s < m := by
  intro draft hlayered hsize
  have hmore : (draft.splitters.push supply).size = draft.splitters.size + 1 := Array.size_push ..
  refine ⟨hlayered.push (h.mono hsize), hmore ▸ Nat.le_succ_of_le hsize, fun s hs => ?_⟩
  obtain rfl : draft.splitters.size = s := Except.ok.inj hs
  exact hmore ▸ Nat.lt_succ_self _

/-- Reporting a plan allots no splitter. -/
theorem allots_report (ctx : Context) (shape : Shape) (p : Plan) :
    Allots n (report ctx shape p) fun _ _ => True := by
  intro draft hlayered hsize
  unfold report
  split
  · exact ⟨hlayered, hsize, fun _ _ => trivial⟩
  · exact ⟨hlayered, hsize, fun _ _ => trivial⟩

end Planning

/-- What is planned, if anything, reads only what is there. -/
abbrev Plan.OptReadsBelow (n : Nat) (p : Option Plan) : Prop := ∀ q ∈ p, q.ReadsBelow n

theorem Plan.readsBelow_none {n : Nat} : OptReadsBelow n none := nofun

theorem Plan.readsBelow_some {n : Nat} {p : Plan} (h : p.ReadsBelow n) : OptReadsBelow n (some p) :=
  fun _ hq => Option.some.inj hq ▸ h

/-- What the provider hands out reads only what is there. -/
def Provider.ReadsBelow (n : Nat) : Provider → Prop
  | splitter s _ => s < n
  | external answer => ∀ plan, answer = .ok plan → plan.ReadsBelow n

/-- The same of a provider that may be missing. -/
abbrev Provider.OptReadsBelow (n : Nat) (targets : Option Provider) : Prop :=
  ∀ provider ∈ targets, provider.ReadsBelow n

namespace Provider

variable {n m : Nat} {provider : Provider} {targets : Option Provider}

theorem ReadsBelow.mono (h : provider.ReadsBelow n) (hle : n ≤ m) : provider.ReadsBelow m := by
  cases provider with
  | splitter s layout => exact Nat.lt_of_lt_of_le h hle
  | external answer => exact fun plan hplan => (h plan hplan).mono hle

theorem OptReadsBelow.mono (h : OptReadsBelow n targets) (hle : n ≤ m) : OptReadsBelow m targets :=
  fun provider hp => (h provider hp).mono hle

theorem readsBelow_none : OptReadsBelow n none := nofun

theorem readsBelow_some (h : provider.ReadsBelow n) : OptReadsBelow n (some provider) :=
  fun _ hp => Option.some.inj hp ▸ h

/-- Asking a provider allots nothing. -/
theorem allots_request (h : provider.ReadsBelow n) :
    Planning.Allots n provider.request fun m p => p.ReadsBelow m := by
  cases provider with
  | splitter s layout =>
    exact .pure fun m hle => Plan.readsBelow_reader (Nat.lt_of_lt_of_le h hle)
  | external answer =>
    intro draft hlayered hsize
    cases answer with
    | error e => exact ⟨hlayered, hsize, nofun⟩
    | ok plan =>
      refine ⟨hlayered, hsize, fun p hp => ?_⟩
      obtain rfl : plan = p := Except.ok.inj hp
      exact (h plan rfl).mono hsize

end Provider

/-! ## Constraints -/

section Constraints

variable {ctx : Context} {frame : Frame} {n : Nat} {targets : Option Provider}

/-- The targets of a leaf are scanned for, or read from what the provider hands out. -/
theorem Context.allots_focus (h : Provider.OptReadsBelow n targets) :
    Planning.Allots n (ctx.focus frame targets) fun m p => p.ReadsBelow m := by
  cases targets with
  | none => exact .pure fun m _ => Plan.readsBelow_targetScan _
  | some provider =>
    exact (Provider.allots_request (h provider rfl)).bind fun m p _ hp =>
      .pure fun k hk => hp.mono hk

/-- The plan of a constraint's violations reads the targets it was given and the splitters it
allotted. -/
theorem Constraint.allots_violations (c : Constraint) (h : Provider.OptReadsBelow n targets) :
    Planning.Allots n (c.violations ctx frame targets) fun m p => p.ReadsBelow m := by
  refine (Context.allots_focus h).bind fun m focus _ hfocus => ?_
  split
  · exact .pure fun k hk => hfocus.mono hk
  · refine (Planning.allots_share hfocus).bind fun k s _ hs => .pure fun l hl => ?_
    -- the targets and the scan for their values read one splitter
    have hreader : (Plan.reader s focus.layout).ReadsBelow l :=
      Plan.readsBelow_reader (Nat.lt_of_lt_of_le hs hl)
    exact hreader.append hreader

/-- Both sides of the anti join read the splitter of the targets. -/
theorem Constraint.allots_satisfactions (c : Constraint) (h : Provider.OptReadsBelow n targets) :
    Planning.Allots n (c.satisfactions ctx frame targets) fun m p => p.ReadsBelow m := by
  refine (Context.allots_focus h).bind fun m focus _ hfocus => ?_
  refine (Planning.allots_share hfocus).bind fun k s _ hs => ?_
  have hgiven : Provider.OptReadsBelow k (some (.splitter s focus.layout)) :=
    Provider.readsBelow_some hs
  refine (c.allots_violations hgiven).bind fun l p hkl hp => ?_
  refine .pure fun i hi => Plan.ReadsBelow.append (q := p.distinctTargets) ?_ (hp.mono hi)
  exact Plan.readsBelow_reader (Nat.lt_of_lt_of_le hs (Nat.le_trans hkl hi))

/-- Under either polarity, a constraint's plan reads only what is there. -/
theorem Constraint.allots_plan (c : Constraint) (id : ShapeId)
    (h : Provider.OptReadsBelow n targets) (negate : Bool) :
    Planning.Allots n (c.plan ctx frame id targets negate) fun m p => p.ReadsBelow m := by
  cases negate with
  | true => exact (c.allots_satisfactions h).bind fun m p _ hp => .pure fun k hk => hp.mono hk
  | false => exact (c.allots_violations h).bind fun m p _ hp => .pure fun k hk => hp.mono hk

end Constraints

/-! ## Conjunctions and disjunctions -/

/-- However many splitters there are, the member is planned so that it reads only what is there. -/
def Member.Allots (m : Member) : Prop :=
  ∀ {n : Nat} {frame : Frame} {targets : Option Provider}, Provider.OptReadsBelow n targets →
    Planning.Allots n (m.plan frame targets) Plan.OptReadsBelow

namespace Member

variable {ctx : Context} {frame : Frame} {n : Nat} {targets : Option Provider}

/-- What is planned only where the delta touches is still planned from what is there. -/
theorem Allots.planTouched {m : Member} (h : m.Allots) :
    Planning.Allots n (m.planTouched ctx frame) Plan.OptReadsBelow := by
  unfold Member.planTouched
  split
  · exact h Provider.readsBelow_none
  · refine (Planning.allots_ofError _).bind fun k b _ _ => ?_
    cases b with
    | true => exact h Provider.readsBelow_none
    | false => exact .pure fun _ _ => Plan.readsBelow_none

/-- Members are planned one by one, each after the splitters of those before it. -/
theorem allots_planEach {plan : Member → Planning (Option Plan)} :
    ∀ {ms : List Member} {n : Nat},
      (∀ m ∈ ms, ∀ k, n ≤ k → Planning.Allots k (plan m) Plan.OptReadsBelow) →
      Planning.Allots n (planEach frame plan ms) fun k r => ∀ p ∈ r.1, p.ReadsBelow k
  | [], _, _ => .pure fun _ _ => nofun
  | m :: ms, n, h => by
    obtain ⟨hm, hms⟩ := List.forall_mem_cons.1 h
    refine (hm n (Nat.le_refl n)).bind fun k p hnk hp => ?_
    have hrest := allots_planEach fun m hm l hl => hms m hm l (Nat.le_trans hnk hl)
    cases p with
    | none => exact hrest
    | some p =>
      refine hrest.bind fun l r hkl hr => .pure fun i hi => ?_
      exact List.forall_mem_cons.2
        ⟨(hp p rfl).mono (Nat.le_trans hkl hi), fun q hq => (hr q hq).mono hi⟩

/-- Cutting the inputs of a union changes nothing about what they read. -/
theorem readsBelow_unionInputs {ps : List Plan} (ownPath : Bool) (h : ∀ p ∈ ps, p.ReadsBelow n) :
    ∀ p ∈ unionInputs ps ownPath, p.ReadsBelow n := by
  unfold unionInputs
  split
  · exact h
  · exact List.forall_mem_map.2 h

/-- Uniting the plans of members brings in no reader that the members' plans did not have. -/
theorem allots_unite {plan : Member → Planning (Option Plan)} {ms : List Member}
    (h : ∀ m ∈ ms, ∀ k, n ≤ k → Planning.Allots k (plan m) Plan.OptReadsBelow) :
    Planning.Allots n (unite frame plan ms) Plan.OptReadsBelow := by
  refine (allots_planEach h).bind fun k r _ hr => ?_
  obtain ⟨ps, ownPath⟩ := r
  cases ps with
  | nil => exact .pure fun _ _ => Plan.readsBelow_none
  | cons p ps =>
    show Planning.Allots k (Planning.ofOp (Plan.union? (unionInputs (p :: ps) ownPath)) >>= _) _
    rw [union?_unionInputs (List.cons_ne_nil p ps)]
    have hinputs := Plan.readsBelow_union (readsBelow_unionInputs ownPath hr)
    exact .pure fun l hl => Plan.readsBelow_some (hinputs.mono hl)

/-- A conjunction allots before it reads if its members do. -/
theorem allots_conjunction {ms : List Member} (h : ∀ m ∈ ms, m.Allots)
    (hgiven : Provider.OptReadsBelow n targets) :
    Planning.Allots n (conjunction ctx frame ms targets) Plan.OptReadsBelow := by
  refine allots_unite fun m hm k hk => ?_
  cases targets with
  | none => exact Allots.planTouched (h m hm)
  | some provider => exact h m hm (hgiven.mono hk)

/-- One branch of a disjunction allots before it reads if its members do. -/
theorem allots_branch {ms : List Member} (h : ∀ m ∈ ms, m.Allots)
    (hgiven : Provider.OptReadsBelow n targets) :
    Planning.Allots n (branch frame ms targets) Plan.OptReadsBelow :=
  allots_unite fun m hm _ hk => h m hm (hgiven.mono hk)

/-- The candidates of all the branches read what is there, the earlier ones still when the later
ones have been planned. -/
theorem allots_candidatesOf : ∀ {bs : List (List Member)} {n : Nat}, (∀ b ∈ bs, ∀ m ∈ b, m.Allots) →
    Planning.Allots n (candidatesOf ctx frame bs) fun k ps =>
      ∀ p ∈ ps, p.ReadsBelow k ∧ p.layout = .aggregated
  | [], _, _ => .pure fun _ _ => nofun
  | b :: bs, n, h => by
    obtain ⟨hb, hbs⟩ := List.forall_mem_cons.1 h
    refine (allots_conjunction hb Provider.readsBelow_none).bind fun k p _ hp => ?_
    cases p with
    | none => exact allots_candidatesOf hbs
    | some p =>
      refine (allots_candidatesOf hbs).bind fun l ps hkl hps => .pure fun i hi => ?_
      refine List.forall_mem_cons.2 ⟨⟨?_, rfl⟩, fun q hq => ⟨(hps q hq).1.mono hi, (hps q hq).2⟩⟩
      exact (hp p rfl).mono (Nat.le_trans hkl hi)

/-- The targets of the branches, if they are handed out, read only what is there. -/
def Candidates.ReadsBelow (n : Nat) : Candidates → Prop
  | given provider => provider.ReadsBelow n
  | _ => True

/-- The candidates of a disjunction are shared in a splitter that reads only what was there. -/
theorem allots_candidates {bs : List (List Member)} (h : ∀ b ∈ bs, ∀ m ∈ b, m.Allots)
    (hgiven : Provider.OptReadsBelow n targets) :
    Planning.Allots n (candidates ctx frame bs targets) fun k c => c.ReadsBelow k := by
  unfold candidates
  cases targets with
  | some provider =>
    -- given targets are shared too, unless they are fetched anew for each branch
    have hprovider := hgiven provider rfl
    cases ctx.config.cacheSelectNodes with
    | true =>
      refine (Provider.allots_request hprovider).bind fun k p _ hp => ?_
      exact (Planning.allots_share hp).bind fun l s _ hs =>
        .pure fun i hi => Nat.lt_of_lt_of_le hs hi
    | false => exact .pure fun k hk => hprovider.mono hk
  | none =>
    cases ctx.baseEmpty with
    | true => exact .pure fun _ _ => trivial
    | false =>
      refine (allots_candidatesOf h).bind fun k ps _ hps => ?_
      cases ps with
      | nil => exact .pure fun _ _ => trivial
      | cons p ps =>
        -- the violators of the branches are united and shared
        have hu := Plan.union?_eq_ok (List.cons_ne_nil p ps) fun q hq => (hps q hq).2
        have hreads := Plan.readsBelow_union fun q hq => (hps q hq).1
        show Planning.Allots k (Planning.ofOp (Plan.union? (p :: ps)) >>= _) _
        rw [hu]
        have hviolators : (Plan.unique (.union (p :: ps)) none).ReadsBelow k := hreads
        show Planning.Allots k (do
          return Candidates.given
            (.splitter (← Planning.share (.unique (.union (p :: ps)) none)) p.layout)) _
        exact (Planning.allots_share hviolators).bind fun l s _ hs =>
          .pure fun i hi => Nat.lt_of_lt_of_le hs hi

/-- The plans of all the branches read what is there, the earlier ones still when the later ones
have been planned. -/
theorem allots_planBranches : ∀ {bs : List (List Member)} {n : Nat},
    (∀ b ∈ bs, ∀ m ∈ b, m.Allots) → Provider.OptReadsBelow n targets →
      Planning.Allots n (planBranches frame targets bs) fun k ps => ∀ p ∈ ps, p.ReadsBelow k
  | [], _, _, _ => .pure fun _ _ => nofun
  | b :: bs, n, h, hgiven => by
    obtain ⟨hb, hbs⟩ := List.forall_mem_cons.1 h
    refine (allots_branch hb hgiven).bind fun k p hnk hp => ?_
    have hrest := allots_planBranches hbs (hgiven.mono hnk)
    cases p with
    | none => exact hrest
    | some p =>
      refine hrest.bind fun l ps hkl hps => .pure fun i hi => ?_
      exact List.forall_mem_cons.2
        ⟨(hp p rfl).mono (Nat.le_trans hkl hi), fun q hq => (hps q hq).mono hi⟩

/-- A chain of joins reads what the plans read that are joined. -/
theorem readsBelow_foldl {join : Plan → Plan → Plan}
    (hjoin : ∀ {p q : Plan}, p.ReadsBelow n → q.ReadsBelow n → (join p q).ReadsBelow n)
    {ps : List Plan} {p : Plan} (hps : ∀ q ∈ ps, q.ReadsBelow n) (hp : p.ReadsBelow n) :
    (ps.foldl join p).ReadsBelow n := by
  induction ps generalizing p with
  | nil => exact hp
  | cons q qs ih =>
    obtain ⟨hq, hqs⟩ := List.forall_mem_cons.1 hps
    exact ih hqs (hjoin hp hq)

/-- An intersection reads what the plans of the branches read. -/
theorem readsBelow_intersection {p : Plan} {ps : List Plan} (layout : Layout)
    (hp : p.ReadsBelow n) (hps : ∀ q ∈ ps, q.ReadsBelow n) :
    (intersection layout p ps).ReadsBelow n := by
  have hu : (Plan.union [p]).ReadsBelow n :=
    Plan.readsBelow_union fun q hq => List.mem_singleton.1 hq ▸ hp
  cases ps with
  | nil =>
    cases layout with
    | tripleBased => exact hu
    | aggregated => exact hu.distinctTargets
  | cons q qs =>
    cases layout with
    | tripleBased => exact readsBelow_foldl Plan.ReadsBelow.append hps hp
    | aggregated =>
      have hjoin : ∀ {a b : Plan}, a.ReadsBelow n → b.ReadsBelow n →
          (Plan.innerJoin a b.distinctTargets).ReadsBelow n :=
        fun ha hb => ha.append hb.distinctTargets
      exact readsBelow_foldl hjoin hps hp.distinctTargets

/-- Intersecting the branches joins plans that read what is there. -/
theorem allots_intersectBranches {bs : List (List Member)} (h : ∀ b ∈ bs, ∀ m ∈ b, m.Allots)
    (hgiven : Provider.OptReadsBelow n targets) :
    Planning.Allots n (intersectBranches frame bs targets) Plan.OptReadsBelow := by
  unfold intersectBranches
  refine (allots_planBranches h hgiven).bind fun k ps _ hps => ?_
  cases ps with
  | nil => exact .pure fun _ _ => Plan.readsBelow_none
  | cons p ps =>
    obtain ⟨hp, hps⟩ := List.forall_mem_cons.1 hps
    simp only [intersect_eq_ok]
    generalize commonLayout (p :: ps) _ = layout
    have hj := readsBelow_intersection layout hp hps
    cases layout with
    | tripleBased => exact .pure (a := some _) fun l hl => Plan.readsBelow_some (hj.mono hl)
    | aggregated => exact .pure (a := some _) fun l hl => Plan.readsBelow_some (hj.mono hl)

/-- A disjunction allots before it reads if the members of its branches do. -/
theorem allots_disjunction {bs : List (List Member)} (h : ∀ b ∈ bs, ∀ m ∈ b, m.Allots)
    (hgiven : Provider.OptReadsBelow n targets) :
    Planning.Allots n (disjunction ctx frame bs targets) Plan.OptReadsBelow := by
  unfold disjunction
  cases bs.isEmpty || bs.any List.isEmpty with
  | true => exact .throw_bind _
  | false =>
    simp only [Bool.false_eq_true, if_false]
    split
    · exact h _ (List.mem_singleton_self _) _ (List.mem_singleton_self _) hgiven
    · refine (allots_candidates h hgiven).bind fun k c _ hc => ?_
      cases c with
      | absent => exact .pure fun _ _ => Plan.readsBelow_none
      | unrestricted => exact allots_intersectBranches h Provider.readsBelow_none
      | given provider => exact allots_intersectBranches h (Provider.readsBelow_some hc)

theorem allots_singletons {ms : List Member} (h : ∀ m ∈ ms, m.Allots) :
    ∀ b ∈ ms.map fun m => [m], ∀ m ∈ b, m.Allots :=
  List.forall_mem_map.2 fun m hm _ hm' => List.mem_singleton.1 hm' ▸ h m hm

/-- The negation of a conjunction is a disjunction, and allots as one. -/
theorem allots_negatedBranch {ms : List Member} (h : ∀ m ∈ ms, m.Allots) :
    (negatedBranch ctx ms).Allots :=
  fun hgiven => allots_disjunction (allots_singletons h) hgiven

end Member

/-! ## Shapes -/

namespace Shape

variable {ctx : Context}

/-- Planned for whatever targets, negated or not, the shape reads only what is there. -/
def Allots (ctx : Context) (s : Shape) : Prop := ∀ negate, (s.member ctx negate).Allots

/-- Reporting a plan allots nothing. -/
theorem allots_finish {n : Nat} (s : Shape) {p : Option Plan} (h : Plan.OptReadsBelow n p) :
    Planning.Allots n (finish ctx s p) Plan.OptReadsBelow := by
  cases p with
  | none => exact .pure fun _ _ => Plan.readsBelow_none
  | some p =>
    refine (Planning.allots_report ctx s _).bind fun k _ hk _ => .pure fun l hl => ?_
    exact Plan.readsBelow_some (Plan.ReadsBelow.mono (h p rfl) (Nat.le_trans hk hl))

theorem allots_members (negate : Bool) {ms : List Shape} (h : ∀ m ∈ ms, Allots ctx m) :
    ∀ m ∈ members ctx negate ms, m.Allots := by
  rw [members_eq_map]
  exact List.forall_mem_map.2 fun m hm => h m hm negate

theorem allots_branchMembers (negate : Bool) {bs : List (List Shape)}
    (h : ∀ b ∈ bs, ∀ m ∈ b, Allots ctx m) :
    ∀ b ∈ branchMembers ctx negate bs, ∀ m ∈ b, m.Allots := by
  rw [branchMembers_eq_map]
  exact List.forall_mem_map.2 fun b hb => List.forall_mem_map.2 fun m hm => h b hb m hm negate

section Active

variable {h : ShapeHead} (hd : h.deactivated = false)
include hd

theorem allots_constraint (c : Constraint) : Allots ctx (constraint h c) := by
  intro negate n frame targets hgiven
  show Planning.Allots n ((constraint h c).plan ctx frame targets negate) _
  rw [plan, hd]
  exact (c.allots_plan h.id hgiven negate).bind fun k p _ hp =>
    .pure fun l hl => Plan.readsBelow_some (hp.mono hl)

theorem allots_conj {ms : List Shape} (ih : ∀ m ∈ ms, Allots ctx m) : Allots ctx (conj h ms) := by
  intro negate n frame targets hgiven
  show Planning.Allots n ((conj h ms).plan ctx frame targets negate) _
  rw [plan, hd]
  cases ms.isEmpty with
  | true => exact .throw_bind _
  | false =>
    cases negate with
    | false =>
      exact (Member.allots_conjunction (allots_members false ih) hgiven).bind fun k p _ hp =>
        allots_finish _ hp
    | true =>
      exact (Member.allots_disjunction (Member.allots_singletons (allots_members true ih))
        hgiven).bind fun k p _ hp => allots_finish _ hp

theorem allots_disj {bs : List (List Shape)} (ih : ∀ b ∈ bs, ∀ m ∈ b, Allots ctx m) :
    Allots ctx (disj h bs) := by
  intro negate n frame targets hgiven
  show Planning.Allots n ((disj h bs).plan ctx frame targets negate) _
  rw [plan, hd]
  cases bs.isEmpty with
  | true => exact .throw_bind _
  | false =>
    cases bs.any List.isEmpty with
    | true => exact .throw_bind _
    | false =>
      cases negate with
      | false =>
        exact (Member.allots_disjunction (allots_branchMembers false ih) hgiven).bind
          fun k p _ hp => allots_finish _ hp
      | true =>
        -- the negated branches are members of a conjunction
        have hnegated : ∀ m ∈ (branchMembers ctx true bs).map (Member.negatedBranch ctx),
            m.Allots :=
          List.forall_mem_map.2 fun b hb =>
            Member.allots_negatedBranch (allots_branchMembers true ih b hb)
        exact (Member.allots_conjunction hnegated hgiven).bind fun k p _ hp =>
          allots_finish _ hp

theorem allots_neg {inner : Shape} (ih : Allots ctx inner) : Allots ctx (neg h inner) := by
  intro negate n frame targets hgiven
  show Planning.Allots n ((neg h inner).plan ctx frame targets negate) _
  rw [plan, hd]
  exact (ih (!negate) hgiven).bind fun k p _ hp => allots_finish _ hp

end Active

/-- Planning a shape allots splitters in layers, and its plan reads only those. -/
theorem allots_plan (ctx : Context) (s : Shape) : Allots ctx s := by
  induction s using active_induction with
  | deactivated s hd =>
    intro negate n frame targets _
    show Planning.Allots n (s.plan ctx frame targets negate) _
    rw [plan_of_deactivated hd]
    exact .pure fun _ _ => Plan.readsBelow_none
  | constraint h c hd => exact allots_constraint hd c
  | conj h ms hd ih => exact allots_conj hd ih
  | disj h bs hd ih => exact allots_disj hd ih
  | neg h inner hd ih => exact allots_neg hd ih

/-- A shape that is planned from nothing for the selected targets: every supply reads only
splitters before it, and the plan reads only splitters that were allotted. -/
theorem layered_plan {frame : Frame} {negate : Bool} {s : Shape} {plan : Plan} {later : Draft}
    (h : (s.plan ctx frame none negate).run.run {} = (.ok (some plan), later)) :
    later.splitters.Layered ∧ ∀ t ∈ plan.readSplitters, t < later.splitters.size := by
  have hallots : Planning.Allots 0 (s.plan ctx frame none negate) Plan.OptReadsBelow :=
    s.allots_plan ctx negate Provider.readsBelow_none
  obtain ⟨hlayered, -, hreads⟩ := hallots {} Splitters.layered_empty (Nat.le_refl 0)
  rw [h] at hlayered hreads
  exact ⟨hlayered, hreads _ rfl plan rfl⟩

/-! ## Reading a planned shape with cursors -/

/-- Plans the shape, or its negation, opens the plan among the splitters that were allotted, and
reads it step by step to the end. Without a plan there are no rows. -/
def pull (ctx : Context) (frame : Frame) (targets : Option Provider) (negate : Bool)
    (draft : Draft) (s : Shape) : Except PassError (List Row) :=
  match (s.plan ctx frame targets negate).run.run draft with
  | (.error e, _) => .error (.plan e)
  | (.ok none, _) => .ok []
  | (.ok (some plan), draft) =>
    ((Pool.ofSplitters draft.splitters).collect plan).1.mapError .operator

section Pull

variable (frame : Frame) (negate : Bool) {draft : Draft} (hdraft : draft.splitters.Layered)
include hdraft

/-- The cursors bring what the plan of the shape means, or the failure that it means. -/
theorem pull_eq_collect {targets : Option Provider}
    (hgiven : Provider.OptReadsBelow draft.splitters.size targets) (s : Shape) :
    s.pull ctx frame targets negate draft = s.collect ctx frame targets negate draft := by
  have hallots : Planning.Allots draft.splitters.size (s.plan ctx frame targets negate)
      Plan.OptReadsBelow := s.allots_plan ctx negate hgiven
  obtain ⟨hlayered, -, hreads⟩ := hallots draft hdraft (Nat.le_refl _)
  unfold pull collect
  generalize (s.plan ctx frame targets negate).run.run draft = planned at hlayered hreads
  obtain ⟨result, later⟩ := planned
  cases result with
  | error e => rfl
  | ok p =>
    cases p with
    | none => rfl
    | some plan =>
      show Except.mapError _ _ = _
      rw [Pool.collect_ofSplitters hlayered (hreads _ rfl plan rfl)]

/-- In a bulk pass the cursors bring what the shape tree says about the selected targets. -/
theorem pull_bulk (hs : ctx.source.Reliable) (hb : ctx.isBulk = true) {s : Shape}
    (hw : s.wellFormed = true) :
    ∃ rows, s.pull ctx frame none negate draft = .ok rows ∧ Row.Strict rows ∧
      Row.lines rows = Table.linesOf (s.rows ctx.source.store
        (ctx.source.store.selection frame.targets) frame.path negate) := by
  rw [pull_eq_collect frame negate hdraft Provider.readsBelow_none s]
  exact collect_bulk hs hb hw frame negate draft

end Pull

end Shape

end GraphShapes
