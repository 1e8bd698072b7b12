import GraphShapes.Proofs.Meaning.Violates
import GraphShapes.Proofs.Planner.Pointwise

/-!
# When planning fails

A shape is refused exactly if a part of it that is not switched off, and not below anything that is,
lacks members or branches (`Shape.HasDefect`). The failure then names such a part. Any other shape
is planned, and there is a plan exactly if some constraint of it is not switched off
(`Shape.plan_fails_iff_hasDefect`). This is so in every bulk pass, and in any pass for targets that
are handed out. In particular no operator ever refuses the inputs that the planner gives it.

`Planning.Ends` says how a step can end, whatever was allotted and reported before it. It is carried
through the planner definition by definition. Every member, branch and negation stands for
some item of the shape tree (`Member.Plans`), so that the lists of them are maps.
-/

namespace GraphShapes

namespace Shape

/-- A part of the shape lacks something, and nothing is switched off on the way there. -/
inductive HasDefect : Shape → Malformation → Prop where
  | noMembers {h : ShapeHead} (hd : h.deactivated = false) :
      HasDefect (.conj h []) (.noMembers h.id)
  | noBranches {h : ShapeHead} (hd : h.deactivated = false) :
      HasDefect (.disj h []) (.noBranches h.id)
  | emptyBranch {h : ShapeHead} {bs : List (List Shape)} (hd : h.deactivated = false)
      (hb : [] ∈ bs) : HasDefect (.disj h bs) (.emptyBranch h.id)
  | conj {h : ShapeHead} {ms : List Shape} {m : Shape} {defect : Malformation}
      (hd : h.deactivated = false) (hm : m ∈ ms) (hdefect : HasDefect m defect) :
      HasDefect (.conj h ms) defect
  | disj {h : ShapeHead} {bs : List (List Shape)} {b : List Shape} {m : Shape}
      {defect : Malformation} (hd : h.deactivated = false) (hb : b ∈ bs) (hm : m ∈ b)
      (hdefect : HasDefect m defect) : HasDefect (.disj h bs) defect
  | neg {h : ShapeHead} {inner : Shape} {defect : Malformation} (hd : h.deactivated = false)
      (hdefect : HasDefect inner defect) : HasDefect (.neg h inner) defect

/-- Nothing counts below a shape that is switched off. -/
theorem HasDefect.active {s : Shape} {defect : Malformation} (h : s.HasDefect defect) :
    s.deactivated = false := by
  cases h <;> assumption

/-- The live shapes are those with a constraint that is not switched off. -/
theorem isLive_iff_hasLeaf (s : Shape) :
    ∀ path : Option Path, s.isLive = true ↔ ∃ p c, s.HasLeaf path p c := by
  induction s using tree_induction with
  | constraint h c =>
    intro path
    rw [isLive, Bool.not_eq_true']
    constructor
    · intro hd
      exact ⟨_, c, .constraint hd⟩
    · rintro ⟨p, c, hl⟩
      cases hl
      assumption
  | conj h ms ih =>
    intro path
    rw [isLive, Bool.and_eq_true, Bool.not_eq_true', anyLive_iff]
    constructor
    · rintro ⟨hd, m, hm, hlive⟩
      obtain ⟨p, c, hl⟩ := (ih m hm (h.path.or path)).1 hlive
      exact ⟨p, c, .conj hd hm hl⟩
    · rintro ⟨p, c, hl⟩
      cases hl with
      | conj hd hm hl => exact ⟨hd, _, hm, (ih _ hm _).2 ⟨p, c, hl⟩⟩
  | disj h bs ih =>
    intro path
    rw [isLive, Bool.and_eq_true, Bool.not_eq_true', anyBranchLive_iff]
    constructor
    · rintro ⟨hd, b, hb, m, hm, hlive⟩
      obtain ⟨p, c, hl⟩ := (ih b hb m hm (h.path.or path)).1 hlive
      exact ⟨p, c, .disj hd hb hm hl⟩
    · rintro ⟨p, c, hl⟩
      cases hl with
      | disj hd hb hm hl => exact ⟨hd, _, hb, _, hm, (ih _ hb _ hm _).2 ⟨p, c, hl⟩⟩
  | neg h inner ih =>
    intro path
    rw [isLive, Bool.and_eq_true, Bool.not_eq_true']
    constructor
    · rintro ⟨hd, hlive⟩
      obtain ⟨p, c, hl⟩ := (ih (h.path.or path)).1 hlive
      exact ⟨p, c, .neg hd hl⟩
    · rintro ⟨p, c, hl⟩
      cases hl with
      | neg hd hl => exact ⟨hd, (ih _).2 ⟨p, c, hl⟩⟩

end Shape

/-! ## Steps and how they end -/

namespace Planning

variable {α β : Type} {B B' : Malformation → Prop} {Q Q' : α → Prop} {R : β → Prop}

/-- Whatever was done before it, the step fails only by naming a defect that is known, and otherwise
has a result that satisfies the condition. -/
def Ends (step : Planning α) (B : Malformation → Prop) (Q : α → Prop) : Prop :=
  ∀ draft, (∃ defect, (step.run.run draft).1 = .error (.malformed defect) ∧ B defect) ∨
    ∃ a, (step.run.run draft).1 = .ok a ∧ Q a

theorem Ends.pure {a : α} (h : Q a) : Ends (Pure.pure a) B Q := fun _ => .inr ⟨a, rfl, h⟩

/-- A step may end with a failure that names a defect. -/
theorem Ends.throw {defect : Malformation} (h : B defect) :
    Ends (MonadExcept.throw (PlanError.malformed defect)) B Q := fun _ => .inl ⟨defect, rfl, h⟩

/-- One step after the other: the second is only taken if the first did not fail. -/
theorem Ends.bind {step : Planning α} {f : α → Planning β} (h : Ends step B Q)
    (hf : ∀ a, Q a → Ends (f a) B R) : Ends (step >>= f) B R := by
  intro draft
  have hrun : (step >>= f).run.run draft =
      match step.run.run draft with | (a, draft') => ExceptT.bindCont f a draft' := rfl
  rw [hrun]
  cases hstep : step.run.run draft with
  | mk result draft' =>
    rcases h draft with ⟨defect, he, hB⟩ | ⟨a, ha, hQ⟩
    · rw [hstep] at he
      obtain rfl : result = _ := he
      exact .inl ⟨defect, rfl, hB⟩
    · rw [hstep] at ha
      obtain rfl : result = _ := ha
      exact hf a hQ draft'

/-- What is said of an end may be weakened, and more defects may be allowed. -/
theorem Ends.mono {step : Planning α} (h : Ends step B Q) (hB : ∀ defect, B defect → B' defect)
    (hQ : ∀ a, Q a → Q' a) : Ends step B' Q' := by
  intro draft
  rcases h draft with ⟨defect, he, hd⟩ | ⟨a, ha, hq⟩
  · exact .inl ⟨defect, he, hB defect hd⟩
  · exact .inr ⟨a, ha, hQ a hq⟩

/-- Allotting a splitter does not fail. -/
theorem ends_share (supply : Plan) : Ends (share supply) B fun _ => True :=
  fun _ => .inr ⟨_, rfl, trivial⟩

/-- Nor does reporting a plan. -/
theorem ends_report (ctx : Context) (shape : Shape) (plan : Plan) :
    Ends (report ctx shape plan) B fun _ => True := by
  intro draft
  unfold report
  split
  · exact .inr ⟨(), rfl, trivial⟩
  · exact .inr ⟨(), rfl, trivial⟩

end Planning

open Planning (Ends)

/-- The targets are handed out on request, or the pass looks at everything. -/
def Context.Asks (ctx : Context) (targets : Option Provider) : Prop :=
  match targets with
  | some provider => ∃ plan, provider.answer = .ok plan
  | none => ctx.isBulk = true

/-- A provider that has an answer gives it. -/
theorem Provider.ends_request {provider : Provider} {plan : Plan}
    (h : provider.answer = .ok plan) {B : Malformation → Prop} :
    Ends provider.request B fun _ => True := by
  cases provider with
  | splitter id layout => exact .pure trivial
  | external answer =>
    obtain rfl : answer = .ok plan := h
    exact fun _ => .inr ⟨plan, rfl, trivial⟩

/-- A splitter always has an answer. -/
theorem Context.asks_splitter (ctx : Context) (id : SplitterId) (layout : Layout) :
    ctx.Asks (some (.splitter id layout)) := ⟨_, rfl⟩

/-! ## Constraints -/

section Constraint

variable {ctx : Context} {targets : Option Provider} {B : Malformation → Prop}

/-- The targets of a leaf are always planned. -/
theorem Context.ends_focus (h : ctx.Asks targets) (frame : Frame) :
    Ends (ctx.focus frame targets) B fun _ => True := by
  cases targets with
  | none => exact .pure trivial
  | some provider =>
    obtain ⟨plan, hplan⟩ := h
    exact (Provider.ends_request hplan).bind fun _ _ => .pure trivial

/-- So are the violations of a constraint. -/
theorem Constraint.ends_violations (h : ctx.Asks targets) (frame : Frame) (c : Constraint) :
    Ends (c.violations ctx frame targets) B fun _ => True := by
  refine (Context.ends_focus h frame).bind fun focus _ => ?_
  split
  · exact .pure trivial
  · exact (Planning.ends_share focus).bind fun _ _ => .pure trivial

/-- So are the targets without a violation. -/
theorem Constraint.ends_satisfactions (h : ctx.Asks targets) (frame : Frame) (c : Constraint) :
    Ends (c.satisfactions ctx frame targets) B fun _ => True := by
  refine (Context.ends_focus h frame).bind fun focus _ => ?_
  refine (Planning.ends_share focus).bind fun split _ => ?_
  exact (c.ends_violations (ctx.asks_splitter split focus.layout) frame).bind fun _ _ =>
    .pure trivial

/-- A constraint is always planned. -/
theorem Constraint.ends_plan (h : ctx.Asks targets) (frame : Frame) (id : ShapeId) (c : Constraint)
    (negate : Bool) : Ends (c.plan ctx frame id targets negate) B fun _ => True := by
  cases negate with
  | true => exact (c.ends_satisfactions h frame).bind fun _ _ => .pure trivial
  | false => exact (c.ends_violations h frame).bind fun _ _ => .pure trivial

end Constraint

/-! ## Conjunctions and disjunctions -/

namespace Member

variable {ι : Type} {ctx : Context} {frame : Frame} {targets : Option Provider}
  {B : Malformation → Prop}

/-- There is none of the defects, and there is something exactly if something is live. -/
def Settled (defects : Malformation → Prop) (live something : Prop) : Prop :=
  (∀ defect, ¬defects defect) ∧ (something ↔ live)

/-- Planned for targets that can be asked for, the member fails exactly by its defects. -/
def Plans (ctx : Context) (m : Member) (defects : Malformation → Prop) (live : Prop) : Prop :=
  ∀ (frame : Frame) (targets : Option Provider), ctx.Asks targets →
    Ends (m.plan frame targets) defects fun p => Settled defects live (p.isSome = true)

section Lists

variable {member : ι → Member} {defects : ι → Malformation → Prop} {live : ι → Prop}

/-- The defects of one of the items. -/
def AnyDefect (defects : ι → Malformation → Prop) (xs : List ι) (defect : Malformation) : Prop :=
  ∃ x ∈ xs, defects x defect

/-- One of the items is live. -/
def AnyLive (live : ι → Prop) (xs : List ι) : Prop := ∃ x ∈ xs, live x

/-- Without items there is neither a defect nor a plan. -/
theorem settled_nil {something : Prop} (h : ¬something) :
    Settled (AnyDefect defects []) (AnyLive live []) something := by
  simp [Settled, AnyDefect, AnyLive, h]

/-- One more item: its defects are added, and it may be the one that has a plan. -/
theorem Settled.cons {x : ι} {xs : List ι} {this later something : Prop}
    (h : Settled (defects x) (live x) this)
    (hxs : Settled (AnyDefect defects xs) (AnyLive live xs) later)
    (hsome : something ↔ this ∨ later) :
    Settled (AnyDefect defects (x :: xs)) (AnyLive live (x :: xs)) something := by
  refine ⟨fun defect hdefect => ?_, ?_⟩
  · rcases List.exists_mem_cons_iff _ _ _ |>.1 hdefect with hx | hmem
    · exact h.1 defect hx
    · exact hxs.1 defect hmem
  · rw [hsome, h.2, hxs.2, AnyLive, AnyLive, List.exists_mem_cons_iff]

/-- Members are planned one by one, by induction over the items they stand for. -/
theorem ends_planEach {plan : Member → Planning (Option Plan)} : ∀ {xs : List ι},
    (∀ x ∈ xs, Ends (plan (member x)) B
      fun p => Settled (defects x) (live x) (p.isSome = true)) →
      Ends (planEach frame plan (xs.map member)) B
        fun r => Settled (AnyDefect defects xs) (AnyLive live xs) (r.1 ≠ [])
  | [], _ => .pure (settled_nil fun h => h rfl)
  | x :: xs, h => by
    obtain ⟨hx, hxs⟩ := List.forall_mem_cons.1 h
    refine hx.bind fun p hp => ?_
    cases p with
    | none => exact (ends_planEach hxs).mono (fun _ => id) fun r hr => hp.cons hr (by simp)
    | some p => exact (ends_planEach hxs).bind fun r hr => .pure (hp.cons hr (by simp))

/-- A union is never refused: its inputs have been brought to one layout. -/
theorem ends_unite {plan : Member → Planning (Option Plan)} {xs : List ι}
    (h : ∀ x ∈ xs, Ends (plan (member x)) B
      fun p => Settled (defects x) (live x) (p.isSome = true)) :
    Ends (unite frame plan (xs.map member)) B
      fun p => Settled (AnyDefect defects xs) (AnyLive live xs) (p.isSome = true) := by
  refine (ends_planEach h).bind fun r hr => ?_
  obtain ⟨plans, ownPath⟩ := r
  cases plans with
  | nil => exact .pure ⟨hr.1, by simp [← hr.2]⟩
  | cons p ps =>
    show Ends (Planning.ofOp (Plan.union? (unionInputs (p :: ps) ownPath)) >>= _) B _
    rw [union?_unionInputs (List.cons_ne_nil p ps)]
    exact Ends.bind (Q := fun _ => True) (.pure trivial) fun _ _ => .pure ⟨hr.1, by simp [← hr.2]⟩

end Lists

section Branches

variable {member : ι → Member} {defects : ι → Malformation → Prop} {live : ι → Prop}

/-- The defects of the items of a branch, of each branch. -/
abbrev BranchDefect (defects : ι → Malformation → Prop) : List (List ι) → Malformation → Prop :=
  AnyDefect (AnyDefect defects)

abbrev BranchLive (live : ι → Prop) : List (List ι) → Prop := AnyLive (AnyLive live)

/-- The items of a list are planned as their defects say, which are among those that are known. -/
def AllPlan (ctx : Context) (member : ι → Member) (defects : ι → Malformation → Prop)
    (live : ι → Prop) (B : Malformation → Prop) (xs : List ι) : Prop :=
  ∀ x ∈ xs, (member x).Plans ctx (defects x) (live x) ∧ ∀ defect, defects x defect → B defect

/-- Each member is planned as its item says, its defects being among those allowed. -/
theorem AllPlan.ends {xs : List ι} (h : AllPlan ctx member defects live B xs)
    (hasks : ctx.Asks targets) (frame : Frame) : ∀ x ∈ xs, Ends ((member x).plan frame targets) B
      fun p => Settled (defects x) (live x) (p.isSome = true) :=
  fun x hx => ((h x hx).1 frame targets hasks).mono (h x hx).2 fun _ => id

/-- A branch is planned if its members are. -/
theorem ends_branch {xs : List ι} (h : AllPlan ctx member defects live B xs)
    (hasks : ctx.Asks targets) (frame : Frame) :
    Ends (branch frame (xs.map member) targets) B
      fun p => Settled (AnyDefect defects xs) (AnyLive live xs) (p.isSome = true) :=
  ends_unite (h.ends hasks frame)

/-- Nothing is passed over. -/
theorem ends_conjunction {xs : List ι} (h : AllPlan ctx member defects live B xs)
    (hasks : ctx.Asks targets) (frame : Frame) :
    Ends (conjunction ctx frame (xs.map member) targets) B
      fun p => Settled (AnyDefect defects xs) (AnyLive live xs) (p.isSome = true) := by
  refine ends_unite fun x hx => ?_
  cases targets with
  | some provider => exact h.ends hasks frame x hx
  | none =>
    have hbulk : ctx.restriction = none := Option.isNone_iff_eq_none.1 hasks
    unfold planTouched
    rw [hbulk]
    exact h.ends hasks frame x hx

/-- The violators of every branch are planned, and only their targets are kept. -/
theorem ends_candidatesOf (hbulk : ctx.isBulk = true) (frame : Frame) : ∀ {bs : List (List ι)},
    (∀ b ∈ bs, AllPlan ctx member defects live B b) →
      Ends (candidatesOf ctx frame (bs.map fun b => b.map member)) B fun plans =>
        (∀ p ∈ plans, p.layout = .aggregated) ∧
          Settled (BranchDefect defects bs) (BranchLive live bs) (plans ≠ [])
  | [], _ => .pure ⟨fun _ hp => absurd hp List.not_mem_nil, settled_nil fun h => h rfl⟩
  | b :: bs, h => by
    obtain ⟨hb, hbs⟩ := List.forall_mem_cons.1 h
    have hasks : ctx.Asks none := hbulk
    refine (ends_conjunction hb hasks frame).bind fun p hp => ?_
    cases p with
    | none =>
      exact (ends_candidatesOf hbulk frame hbs).mono (fun _ => id) fun plans hplans =>
        ⟨hplans.1, hp.cons hplans.2 (by simp)⟩
    | some p =>
      exact (ends_candidatesOf hbulk frame hbs).bind fun plans hplans =>
        .pure ⟨List.forall_mem_cons.2 ⟨rfl, hplans.1⟩, hp.cons hplans.2 (by simp)⟩

/-- The branches of a disjunction are planned one by one. -/
theorem ends_planBranches (hasks : ctx.Asks targets) (frame : Frame) : ∀ {bs : List (List ι)},
    (∀ b ∈ bs, AllPlan ctx member defects live B b) →
      Ends (planBranches frame targets (bs.map fun b => b.map member)) B
        fun plans => Settled (BranchDefect defects bs) (BranchLive live bs) (plans ≠ [])
  | [], _ => .pure (settled_nil fun h => h rfl)
  | b :: bs, h => by
    obtain ⟨hb, hbs⟩ := List.forall_mem_cons.1 h
    refine (ends_branch hb hasks frame).bind fun p hp => ?_
    cases p with
    | none =>
      exact (ends_planBranches hasks frame hbs).mono (fun _ => id) fun plans hplans =>
        hp.cons hplans (by simp)
    | some p =>
      exact (ends_planBranches hasks frame hbs).bind fun plans hplans =>
        .pure (hp.cons hplans (by simp))

/-- The joins are never refused either. -/
theorem ends_intersectBranches {bs : List (List ι)}
    (h : ∀ b ∈ bs, AllPlan ctx member defects live B b) (hasks : ctx.Asks targets)
    (frame : Frame) :
    Ends (intersectBranches frame (bs.map fun b => b.map member) targets) B
      fun p => Settled (BranchDefect defects bs) (BranchLive live bs) (p.isSome = true) := by
  refine (ends_planBranches hasks frame h).bind fun plans hplans => ?_
  cases plans with
  | nil => exact .pure ⟨hplans.1, by simp [← hplans.2]⟩
  | cons first rest =>
    have hsome : Settled (BranchDefect defects bs) (BranchLive live bs) True :=
      ⟨hplans.1, by simp [← hplans.2]⟩
    simp only [intersect_eq_ok]
    refine Ends.bind (Q := fun _ => True) (.pure trivial) fun plan _ => ?_
    split
    · exact .pure (by simpa using hsome)
    · exact .pure (by simpa using hsome)

/-- There are candidates, or else nothing to be planned. -/
def Candidates.Fit (ctx : Context) (defects : Malformation → Prop) (live : Prop) :
    Candidates → Prop
  | .unrestricted => ctx.isBulk = true
  | .given provider => ∃ plan, provider.answer = .ok plan
  | .absent => Settled defects live False

/-- The candidates of a disjunction are handed out, or there is nothing to plan in it. -/
theorem ends_candidates {bs : List (List ι)} (h : ∀ b ∈ bs, AllPlan ctx member defects live B b)
    (hasks : ctx.Asks targets) (frame : Frame) :
    Ends (candidates ctx frame (bs.map fun b => b.map member) targets) B
      (Candidates.Fit ctx (BranchDefect defects bs) (BranchLive live bs)) := by
  unfold candidates
  cases targets with
  | some provider =>
    obtain ⟨plan, hplan⟩ := hasks
    cases ctx.config.cacheSelectNodes with
    | true =>
      refine (Provider.ends_request hplan).bind fun plan _ => ?_
      exact (Planning.ends_share plan).bind fun split _ => .pure ⟨_, rfl⟩
    | false => exact .pure ⟨plan, hplan⟩
  | none =>
    -- without given targets the candidates are what the branches themselves report
    have hbulk : ctx.isBulk = true := hasks
    cases ctx.baseEmpty with
    | true => exact .pure hbulk
    | false =>
      refine (ends_candidatesOf hbulk frame h).bind fun plans hplans => ?_
      obtain ⟨hlayout, hsettled⟩ := hplans
      cases plans with
      | nil => exact .pure ⟨hsettled.1, by simp [← hsettled.2]⟩
      | cons p ps =>
        show Ends (Planning.ofOp (Plan.union? (p :: ps)) >>= _) B _
        rw [Plan.union?_eq_ok (List.cons_ne_nil p ps) hlayout]
        refine Ends.bind (Q := fun _ => True) (.pure trivial) fun union _ => ?_
        exact (Planning.ends_share _).bind fun split _ => .pure ⟨_, rfl⟩

/-- A disjunction is planned if the members of its branches are, also where a single member is
forwarded. -/
theorem ends_disjunction {bs : List (List ι)} (hne : bs ≠ []) (hbs : [] ∉ bs)
    (h : ∀ b ∈ bs, AllPlan ctx member defects live B b) (hasks : ctx.Asks targets)
    (frame : Frame) :
    Ends (disjunction ctx frame (bs.map fun b => b.map member) targets) B
      fun p => Settled (BranchDefect defects bs) (BranchLive live bs) (p.isSome = true) := by
  have hbad : ((bs.map fun b => b.map member).isEmpty ||
      (bs.map fun b => b.map member).any List.isEmpty) = false := by
    rw [Bool.or_eq_false_iff, List.isEmpty_eq_false_iff, List.any_eq_false]
    refine ⟨fun hnil => hne (List.map_eq_nil_iff.1 hnil), fun b hb hempty => ?_⟩
    obtain ⟨b', hb', rfl⟩ := List.mem_map.1 hb
    obtain rfl : b' = [] := List.map_eq_nil_iff.1 (List.isEmpty_iff.1 hempty)
    exact hbs hb'
  unfold disjunction
  simp only [hbad, Bool.false_eq_true, if_false]
  split
  · next only heq =>
    -- a single branch with a single member
    obtain ⟨b, rfl, hb⟩ := List.map_eq_singleton_iff.1 heq
    obtain ⟨x, rfl, rfl⟩ := List.map_eq_singleton_iff.1 hb
    have hx := (h [x] (List.mem_singleton_self _)).ends hasks frame x (List.mem_singleton_self x)
    refine hx.mono (fun _ => id) fun p hp => ?_
    simpa [Settled, AnyDefect, AnyLive] using hp
  · refine (ends_candidates h hasks frame).bind fun r hr => ?_
    cases r with
    | absent => exact .pure ⟨hr.1, by simp [← hr.2]⟩
    | unrestricted =>
      have hasks : ctx.Asks none := hr
      exact ends_intersectBranches h hasks frame
    | given provider =>
      have hasks : ctx.Asks (some provider) := hr
      exact ends_intersectBranches h hasks frame

/-- Items of which each is a branch of its own. -/
theorem AllPlan.singletons {xs : List ι} (h : AllPlan ctx member defects live B xs) :
    ∀ b ∈ xs.map fun x => [x], AllPlan ctx member defects live B b := by
  intro b hb x hx
  obtain ⟨y, hy, rfl⟩ := List.mem_map.1 hb
  obtain rfl := List.mem_singleton.1 hx
  exact h x hy

/-- With one branch for every item, the defects and the live items are those of the list. -/
theorem settled_singletons {xs : List ι} {something : Prop}
    (h : Settled (BranchDefect defects (xs.map fun x => [x]))
      (BranchLive live (xs.map fun x => [x])) something) :
    Settled (AnyDefect defects xs) (AnyLive live xs) something := by
  simpa [Settled, AnyDefect, AnyLive] using h

/-- The disjunction of single members, as the negation of a conjunction is planned. -/
theorem ends_disjunction_singletons {xs : List ι} (hne : xs ≠ [])
    (h : AllPlan ctx member defects live B xs) (hasks : ctx.Asks targets) (frame : Frame) :
    Ends (disjunction ctx frame ((xs.map member).map fun m => [m]) targets) B
      fun p => Settled (AnyDefect defects xs) (AnyLive live xs) (p.isSome = true) := by
  have hbranches : (xs.map member).map (fun m => [m]) =
      (xs.map fun x => [x]).map fun b => b.map member := by simp
  rw [hbranches]
  have hne : (xs.map fun x => [x]) ≠ [] := by simpa using hne
  exact (ends_disjunction hne (by simp) h.singletons hasks frame).mono (fun _ => id)
    fun _ => settled_singletons

/-- The negation of a branch stands for the items of the branch. -/
theorem plans_negatedBranch {xs : List ι} (hne : xs ≠ [])
    (h : AllPlan ctx member defects live (AnyDefect defects xs) xs) :
    (negatedBranch ctx (xs.map member)).Plans ctx (AnyDefect defects xs) (AnyLive live xs) :=
  fun frame _ hasks => ends_disjunction_singletons hne h hasks frame

end Branches

end Member

/-! ## Shapes -/

namespace Shape

variable {ctx : Context}

/-- The members of a conjunction stand for its shapes. -/
theorem members_eq_map (negate : Bool) :
    ∀ ms : List Shape, members ctx negate ms = ms.map (member ctx negate)
  | [] => rfl
  | _ :: ms => by rw [members, members_eq_map negate ms, List.map_cons]; rfl

/-- The members of all branches stand for their shapes. -/
theorem branchMembers_eq_map (negate : Bool) : ∀ bs : List (List Shape),
    branchMembers ctx negate bs = bs.map fun b => b.map (member ctx negate)
  | [] => rfl
  | b :: bs => by
    rw [branchMembers, branchMembers_eq_map negate bs, members_eq_map, List.map_cons]

/-- The shape, negated or not, is planned as its defects say. -/
def PlansByDefects (ctx : Context) (s : Shape) : Prop :=
  ∀ negate, (member ctx negate s).Plans ctx s.HasDefect (s.isLive = true)

/-- Tagging and reporting do not fail. -/
theorem ends_finish {B : Malformation → Prop} {live : Prop} (shape : Shape) {p : Option Plan}
    (h : Member.Settled B live (p.isSome = true)) :
    Ends (finish ctx shape p) B fun p => Member.Settled B live (p.isSome = true) := by
  cases p with
  | none => exact .pure h
  | some p =>
    exact (Planning.ends_report ctx shape _).bind fun _ _ => .pure h

/-- A shape that is switched off is not planned. -/
theorem plan_of_deactivated {s : Shape} (hd : s.deactivated = true) (frame : Frame)
    (targets : Option Provider) (negate : Bool) : s.plan ctx frame targets negate = pure none := by
  have hd : s.head.deactivated = true := hd
  cases s <;> · simp only [head] at hd; rw [plan, hd]; rfl

/-- A shape that is switched off has no defects, no leaf and no plan. -/
theorem plansByDefects_of_deactivated {s : Shape} (hd : s.deactivated = true) :
    s.PlansByDefects ctx := by
  intro negate frame targets _
  show Ends (s.plan ctx frame targets negate) _ _
  rw [plan_of_deactivated hd]
  refine .pure ⟨fun defect hdefect => ?_, by simp [isLive_of_deactivated hd]⟩
  rw [hdefect.active] at hd
  cases hd

section Active

variable {h : ShapeHead} (hd : h.deactivated = false)
include hd

/-- A constraint has no defects and is always planned. -/
theorem plansByDefects_constraint (c : Constraint) : (constraint h c).PlansByDefects ctx := by
  intro negate frame targets hasks
  show Ends ((constraint h c).plan ctx frame targets negate) _ _
  rw [plan, hd]
  refine (c.ends_plan hasks _ h.id negate).bind fun p _ => .pure ⟨?_, by simp [isLive, hd]⟩
  intro defect hdefect
  cases hdefect

/-- What is settled for the members of a conjunction is settled for the conjunction. -/
theorem settled_conj {ms : List Shape} (hne : ms ≠ []) {something : Prop}
    (hs : Member.Settled (Member.AnyDefect HasDefect ms)
      (Member.AnyLive (fun m => m.isLive = true) ms) something) :
    Member.Settled (conj h ms).HasDefect ((conj h ms).isLive = true) something := by
  refine ⟨fun defect hdefect => ?_, ?_⟩
  · cases hdefect with
    | noMembers => exact hne rfl
    | conj _ hm hdefect => exact hs.1 defect ⟨_, hm, hdefect⟩
  · rw [hs.2, isLive, hd, Bool.not_false, Bool.true_and, anyLive_iff]
    rfl

/-- What is settled for the branches of a disjunction is settled for the disjunction. -/
theorem settled_disj {bs : List (List Shape)} (hne : bs ≠ []) (hbs : [] ∉ bs) {something : Prop}
    (hs : Member.Settled (Member.BranchDefect HasDefect bs)
      (Member.BranchLive (fun m => m.isLive = true) bs) something) :
    Member.Settled (disj h bs).HasDefect ((disj h bs).isLive = true) something := by
  refine ⟨fun defect hdefect => ?_, ?_⟩
  · cases hdefect with
    | noBranches => exact hne rfl
    | emptyBranch _ hb => exact hbs hb
    | disj _ hb hm hdefect => exact hs.1 defect ⟨_, hb, _, hm, hdefect⟩
  · rw [hs.2, isLive, hd, Bool.not_false, Bool.true_and, anyBranchLive_iff]
    rfl

/-- A conjunction is refused for having no members, or for a defect of a member. -/
theorem plansByDefects_conj {ms : List Shape} (ih : ∀ m ∈ ms, m.PlansByDefects ctx) :
    (conj h ms).PlansByDefects ctx := by
  intro negate frame targets hasks
  show Ends ((conj h ms).plan ctx frame targets negate) _ _
  rw [plan, hd]
  cases hempty : ms.isEmpty with
  | true =>
    obtain rfl := List.isEmpty_iff.1 hempty
    exact Ends.bind (.throw (.noMembers hd)) (Q := fun _ => False) fun _ => False.elim
  | false =>
    have hne : ms ≠ [] := List.isEmpty_eq_false_iff.1 hempty
    -- a defect of a member is a defect of the whole, as the whole is active
    have hall : ∀ negate, Member.AllPlan ctx (member ctx negate) HasDefect
        (fun m => m.isLive = true) (conj h ms).HasDefect ms :=
      fun negate m hm => ⟨ih m hm negate, fun _ => .conj hd hm⟩
    rw [members_eq_map, members_eq_map]
    cases negate with
    | true =>
      exact (Member.ends_disjunction_singletons hne (hall true) hasks _).bind fun p hp =>
        ends_finish _ (settled_conj hd hne hp)
    | false =>
      exact (Member.ends_conjunction (hall false) hasks _).bind fun p hp =>
        ends_finish _ (settled_conj hd hne hp)

/-- A disjunction is refused for lacking branches or members in one, or for a defect of a member. -/
theorem plansByDefects_disj {bs : List (List Shape)}
    (ih : ∀ b ∈ bs, ∀ m ∈ b, m.PlansByDefects ctx) : (disj h bs).PlansByDefects ctx := by
  intro negate frame targets hasks
  show Ends ((disj h bs).plan ctx frame targets negate) _ _
  rw [plan, hd]
  cases hempty : bs.isEmpty with
  | true =>
    obtain rfl := List.isEmpty_iff.1 hempty
    exact Ends.bind (.throw (.noBranches hd)) (Q := fun _ => False) fun _ => False.elim
  | false =>
    cases hany : bs.any List.isEmpty with
    | true =>
      obtain ⟨b, hb, hnil⟩ := List.any_eq_true.1 hany
      obtain rfl := List.isEmpty_iff.1 hnil
      exact Ends.bind (.throw (.emptyBranch hd hb)) (Q := fun _ => False) fun _ => False.elim
    | false =>
      have hne : bs ≠ [] := List.isEmpty_eq_false_iff.1 hempty
      have hbs : [] ∉ bs := fun hnil => List.any_eq_false.1 hany [] hnil rfl
      rw [branchMembers_eq_map, branchMembers_eq_map]
      cases negate with
      | false =>
        have hall : ∀ b ∈ bs, Member.AllPlan ctx (member ctx false) HasDefect
            (fun m => m.isLive = true) (disj h bs).HasDefect b :=
          fun b hb m hm => ⟨ih b hb m hm false, fun _ => .disj hd hb hm⟩
        exact (Member.ends_disjunction hne hbs hall hasks _).bind fun p hp =>
          ends_finish _ (settled_disj hd hne hbs hp)
      | true =>
        simp only [List.map_map]
        -- every branch is planned as the disjunction of its negated members
        have hall : Member.AllPlan ctx
            (Member.negatedBranch ctx ∘ fun b : List Shape => b.map (member ctx true))
            (Member.AnyDefect HasDefect) (Member.AnyLive fun m => m.isLive = true)
            (disj h bs).HasDefect bs := by
          intro b hb
          refine ⟨Member.plans_negatedBranch (fun hnil => hbs (hnil ▸ hb)) fun m hm => ?_, ?_⟩
          · exact ⟨ih b hb m hm true, fun defect hdefect => ⟨m, hm, hdefect⟩⟩
          · rintro defect ⟨m, hm, hdefect⟩
            exact .disj hd hb hm hdefect
        exact (Member.ends_conjunction hall hasks _).bind fun p hp =>
          ends_finish _ (settled_disj hd hne hbs hp)

/-- A negation is refused for the defects of what it negates. -/
theorem plansByDefects_neg {inner : Shape} (ih : inner.PlansByDefects ctx) :
    (neg h inner).PlansByDefects ctx := by
  intro negate frame targets hasks
  show Ends ((neg h inner).plan ctx frame targets negate) _ _
  rw [plan, hd]
  have hinner := (ih (!negate) (frame.within h.path) targets hasks).mono
    (fun _ => HasDefect.neg hd) fun _ hp => hp
  refine hinner.bind fun p hp => ends_finish _ ⟨fun defect hdefect => ?_, ?_⟩
  · cases hdefect with
    | neg _ hdefect => exact hp.1 defect hdefect
  · rw [hp.2, isLive, hd, Bool.not_false, Bool.true_and]

end Active

/-- Every shape is planned as its defects say. -/
theorem plansByDefects (ctx : Context) (s : Shape) : s.PlansByDefects ctx := by
  induction s using active_induction with
  | deactivated s hd => exact plansByDefects_of_deactivated hd
  | constraint h c hd => exact plansByDefects_constraint hd c
  | conj h ms hd ih => exact plansByDefects_conj hd ih
  | disj h bs hd ih => exact plansByDefects_disj hd ih
  | neg h inner hd ih => exact plansByDefects_neg hd ih

/-- Planning fails exactly if something active in the shape lacks members or branches, and the
failure names such a defect. Otherwise there is a plan exactly if some constraint of the shape has
nothing switched off at or above it. -/
theorem plan_fails_iff_hasDefect {ctx : Context} {targets : Option Provider}
    (hasks : ctx.Asks targets) (s : Shape) (frame : Frame) (negate : Bool) (draft : Draft) :
    ((∃ e, ((s.plan ctx frame targets negate).run.run draft).1 = .error e) ↔
      ∃ defect, s.HasDefect defect) ∧
    (∀ e, ((s.plan ctx frame targets negate).run.run draft).1 = .error e →
      ∃ defect, s.HasDefect defect ∧ e = .malformed defect) ∧
    ((∀ defect, ¬s.HasDefect defect) →
      ∃ plan, ((s.plan ctx frame targets negate).run.run draft).1 = .ok plan ∧
        (plan.isSome = true ↔ ∃ p c, s.HasLeaf frame.path p c)) := by
  rcases s.plansByDefects ctx negate frame targets hasks draft with
    ⟨defect, he, hdefect⟩ | ⟨plan, hplan, hnone, hsome⟩
  · have he : ((s.plan ctx frame targets negate).run.run draft).1 = .error (.malformed defect) := he
    rw [he]
    refine ⟨⟨fun _ => ⟨defect, hdefect⟩, fun _ => ⟨_, rfl⟩⟩, fun e heq => ?_, fun hnone => ?_⟩
    · exact ⟨defect, hdefect, (Except.error.inj heq).symm⟩
    · exact absurd hdefect (hnone defect)
  · have hplan : ((s.plan ctx frame targets negate).run.run draft).1 = .ok plan := hplan
    rw [hplan]
    refine ⟨⟨?_, ?_⟩, fun e heq => (nomatch heq), fun _ => ⟨plan, rfl, ?_⟩⟩
    · rintro ⟨e, heq⟩
      cases heq
    · rintro ⟨defect, hdefect⟩
      exact absurd hdefect (hnone defect)
    · rw [hsome, isLive_iff_hasLeaf]

/-- A conjunction without members. -/
def memberless (deactivated : Bool) : Shape := conj { id := ⟨3⟩, deactivated } []

/-- Under a negation, a branch without members is found beside a shape that is switched off. -/
theorem plan_fails_iff_hasDefect_nested :
    let ctx : Context := .bulk (.ofStore .empty) {}
    let nested : List (List Shape) → Shape := fun bs => neg { id := ⟨1⟩ } (disj { id := ⟨2⟩ } bs)
    let run : Shape → Except PlanError (Option Plan) := fun s =>
      ((s.plan ctx ⟨[.nodes []], none⟩ none false).run.run {}).1
    (∃ e, run (nested [[memberless true], []]) = .error e) ∧
      (∀ e, run (nested [[memberless true], []]) = .error e → e = .malformed (.emptyBranch ⟨2⟩)) ∧
      (∃ e, run (nested [[memberless false]]) = .error e) ∧
      ∃ plan, run (nested [[memberless true]]) = .ok plan ∧ plan.isSome = false := by
  intro ctx nested run
  have hasks : ctx.Asks none := rfl
  obtain ⟨hempty, hnamed, -⟩ :=
    plan_fails_iff_hasDefect hasks (nested [[memberless true], []]) ⟨[.nodes []], none⟩ false {}
  obtain ⟨hactive, -, -⟩ :=
    plan_fails_iff_hasDefect hasks (nested [[memberless false]]) ⟨[.nodes []], none⟩ false {}
  obtain ⟨-, -, hidle⟩ :=
    plan_fails_iff_hasDefect hasks (nested [[memberless true]]) ⟨[.nodes []], none⟩ false {}
  have hoff : ∀ defect, ¬(memberless true).HasDefect defect := fun _ hdefect =>
    nomatch hdefect.active
  refine ⟨hempty.2 ⟨_, .neg rfl (.emptyBranch rfl (.tail _ (.head _)))⟩, fun e he => ?_, ?_, ?_⟩
  · obtain ⟨defect, hdefect, rfl⟩ := hnamed e he
    cases hdefect with
    | neg _ hdefect =>
      cases hdefect with
      | emptyBranch => rfl
      | disj _ hb hm hdefect =>
        rcases List.mem_cons.1 hb with rfl | hb
        · obtain rfl := List.mem_singleton.1 hm
          exact absurd hdefect (hoff defect)
        · obtain rfl := List.mem_singleton.1 hb
          cases hm
  · exact hactive.2 ⟨_, .neg rfl (.disj rfl (.head _) (.head _) (.noMembers rfl))⟩
  · obtain ⟨plan, hplan, hsome⟩ := hidle fun defect hdefect => by
      cases hdefect with
      | neg _ hdefect =>
        cases hdefect with
        | emptyBranch _ hb => simp at hb
        | disj _ hb hm hdefect =>
          obtain rfl := List.mem_singleton.1 hb
          obtain rfl := List.mem_singleton.1 hm
          exact hoff defect hdefect
    refine ⟨plan, hplan, ?_⟩
    rw [Bool.eq_false_iff]
    intro h
    obtain ⟨p, c, hleaf⟩ := hsome.1 h
    have hlive : (nested [[memberless true]]).isLive = true :=
      (isLive_iff_hasLeaf _ _).2 ⟨p, c, hleaf⟩
    exact absurd hlive (by decide)

end Shape

end GraphShapes
