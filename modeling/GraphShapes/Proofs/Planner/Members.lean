import GraphShapes.Proofs.Planner.Combine
import GraphShapes.Proofs.Planner.Unshared
import GraphShapes.Proofs.Planner.View

/-!
# What conjunctions and disjunctions plan

A member of a conjunction or disjunction *realizes* a piece if it plans what a pass reports about
the piece, and for given targets what the piece reports about these (`Realizes`). From members that
realize pieces, a conjunction plans what the view says of the pieces (`gives_conjunction`), and so
does a disjunction (`gives_disjunction`), whether it is given targets or has to look for its
candidates first. The negation of a branch realizes the negation of its pieces
(`realizes_negatedBranch`), so that members can be nested.

Nothing here fails: an operator is never refused, and a source that answers lets no plan fail.
-/

namespace GraphShapes.Unshared

/-- The step has a plan that shows the table, or there is neither plan nor table. -/
def Gives (step : Except PlanError (Option Plan)) (table : Option Table) : Prop :=
  ∃ plan, step = .ok plan ∧ Option.Rel Plan.Shows plan table

theorem Gives.none : Gives (.ok none) none := ⟨_, rfl, .none⟩

theorem Gives.some {p : Plan} {table : Table} (h : p.Shows table) :
    Gives (.ok (some p)) (some table) := ⟨_, rfl, .some h⟩

namespace Member

/-- Planned in this way, the member gives the table of the part. -/
structure PlansPart (frame : Frame) (plan : Member → Except PlanError (Option Plan)) (m : Member)
    (part : Table.Part) : Prop where
  gives : Gives (plan m) part.table
  ownPath : m.hasOwnPath frame.path = part.ownPath

/-- The member plans what the pass reports about the piece, and for given targets what the piece
reports about them. -/
structure Realizes (ctx : Context) (frame : Frame) (m : Member) (piece : Piece) : Prop where
  found : Gives (m.plan frame none) piece.found
  among : ∀ {q : Plan} {rows : List Row}, q.Lists rows → Gives (m.plan frame (some (.ok q)))
    (piece.among ctx.source.store (rows.map Row.target).toFinset)
  ownPath : m.hasOwnPath frame.path = piece.ownPath
  touched : ∀ delta, ctx.restriction = some delta → m.touched frame delta = .ok piece.touched
  untouched : ctx.restriction = none → piece.touched = false → piece.found = none

variable {ctx : Context} {frame : Frame} {m : Member} {ms : List Member} {bs : List (List Member)}
  {piece : Piece} {pieces : List Piece} {branches : List (List Piece)}

/-! ## Conjunctions -/

section Parts

variable {plan : Member → Except PlanError (Option Plan)} {parts : List Table.Part}

/-- Every member that has a table has a plan of it. -/
theorem planEach_eq (h : List.Forall₂ (PlansPart frame plan) ms parts) :
    ∃ plans, planEach frame plan ms = .ok (plans, Table.ownPathOf parts) ∧
      List.Forall₂ Plan.Shows plans (Table.tablesOf parts) := by
  induction h with
  | nil => exact ⟨[], rfl, .nil⟩
  | @cons m part ms parts hm _ ih =>
    obtain ⟨plans, hplans, hshows⟩ := ih
    obtain ⟨p?, hp, hrel⟩ := hm.gives
    obtain ⟨table, ownPath⟩ := part
    cases hrel with
    | none =>
      refine ⟨plans, ?_, hshows⟩
      rw [planEach, hp]
      exact hplans
    | @some p table hp' =>
      refine ⟨p :: plans, ?_, .cons hp' hshows⟩
      rw [planEach, hp, hplans]
      show Except.ok (p :: plans, m.hasOwnPath frame.path || Table.ownPathOf parts) = _
      rw [hm.ownPath]
      rfl

/-- What members give is united as their parts are. -/
theorem gives_unite (h : List.Forall₂ (PlansPart frame plan) ms parts) :
    Gives (unite frame plan ms) (Table.unite parts) := by
  obtain ⟨plans, hplans, hshows⟩ := planEach_eq h
  unfold unite Table.unite
  rw [hplans]
  generalize Table.tablesOf parts = tables at hshows
  cases hshows with
  | nil => exact .none
  | cons hp hps => exact .some (Plan.shows_union (.cons hp hps) (List.cons_ne_nil _ _) _)

end Parts

/-- A member that the delta cannot bear on is passed over. -/
theorem Realizes.planTouched (h : m.Realizes ctx frame piece) :
    PlansPart frame (fun m => m.planTouched ctx frame) m piece.touchedPart := by
  refine ⟨?_, h.ownPath⟩
  show Gives (m.planTouched ctx frame) (if piece.touched then piece.found else none)
  unfold Member.planTouched
  cases hr : ctx.restriction with
  | none =>
    -- a bulk pass passes over nothing, and what is not touched has no table anyway
    have htable : (if piece.touched then piece.found else none) = piece.found := by
      cases ht : piece.touched with
      | true => rfl
      | false => exact (h.untouched hr ht).symm
    rw [htable]
    exact h.found
  | some delta =>
    show Gives (ofError (m.touched frame delta) >>= _) _
    rw [h.touched delta hr]
    cases piece.touched with
    | true => exact h.found
    | false => exact .none

theorem Realizes.planFound (h : m.Realizes ctx frame piece) :
    PlansPart frame (fun m => m.plan frame none) m piece.part := ⟨h.found, h.ownPath⟩

/-- Planned for given targets, a member plans what its piece says of these. -/
theorem Realizes.planAmong (h : m.Realizes ctx frame piece) {q : Plan} {rows : List Row}
    (hq : q.Lists rows) : PlansPart frame (fun m => m.plan frame (some (.ok q))) m
      (piece.partAmong ctx.source.store (rows.map Row.target).toFinset) :=
  ⟨h.among hq, h.ownPath⟩

/-- Members of a conjunction, none of them left out. -/
abbrev AllRealize (ctx : Context) (frame : Frame) : List Member → List Piece → Prop :=
  List.Forall₂ (Realizes ctx frame)

/-- A conjunction without given targets plans what the pass reports about it. -/
theorem gives_conjunction (h : AllRealize ctx frame ms pieces) :
    Gives (conjunction ctx frame ms none) (View.conjoin pieces) :=
  gives_unite (List.forall₂_map_right_iff.2 (h.imp fun _ _ hm => hm.planTouched))

/-! ## Intersections of branches -/

section Branches

variable {given : Option Offer} {parts : List (List Table.Part)}

/-- Every branch that has a table has a plan of it. -/
theorem planBranches_eq
    (h : List.Forall₂ (List.Forall₂ (PlansPart frame fun m => m.plan frame given)) bs parts) :
    ∃ plans, planBranches frame given bs = .ok plans ∧
      List.Forall₂ Plan.Shows plans (parts.filterMap Table.unite) := by
  induction h with
  | nil => exact ⟨[], rfl, .nil⟩
  | @cons b part bs parts hb _ ih =>
    obtain ⟨plans, hplans, hshows⟩ := ih
    obtain ⟨p?, hp, hrel⟩ := gives_unite hb
    have hp : branch frame b given = .ok p? := hp
    rw [List.filterMap_cons]
    -- a branch without a table has no plan and is passed over
    cases hu : Table.unite part with
    | none =>
      rw [hu] at hrel
      cases hrel
      refine ⟨plans, ?_, hshows⟩
      rw [planBranches, hp]
      exact hplans
    | some table =>
      rw [hu] at hrel
      cases hrel with
      | @some p _ hp' =>
        refine ⟨p :: plans, ?_, .cons hp' hshows⟩
        rw [planBranches, hp, hplans]
        rfl

/-- A member sets a path of its own exactly if its part does. -/
theorem any_hasOwnPath_eq
    (h : List.Forall₂ (List.Forall₂ (PlansPart frame fun m => m.plan frame given)) bs parts) :
    (bs.any fun b => b.any fun m => m.hasOwnPath frame.path) =
      parts.any fun b => b.any Table.Part.ownPath := by
  refine any_eq_of_forall₂ (h.imp fun b ps hb => ?_)
  exact any_eq_of_forall₂ (hb.imp fun _ _ hm => hm.ownPath)

/-- What branches give is intersected as their parts are. -/
theorem gives_intersectBranches
    (h : List.Forall₂ (List.Forall₂ (PlansPart frame fun m => m.plan frame given)) bs parts) :
    Gives (intersectBranches frame bs given) (Table.intersect parts) := by
  obtain ⟨plans, hplans, hshows⟩ := planBranches_eq h
  unfold intersectBranches Table.intersect
  rw [hplans, ← any_hasOwnPath_eq h]
  generalize parts.filterMap Table.unite = tables at hshows
  cases hshows with
  | nil => exact .none
  | @cons p table ps tables hp hps =>
    have hlayout := Plan.Shows.commonLayout_eq (.cons hp hps) (List.cons_ne_nil p ps)
      (bs.any fun b => b.any fun m => m.hasOwnPath frame.path)
    have hdelivers := fun layout => Plan.delivers_intersection hp hps layout
    dsimp only [bind, Except.bind]
    rw [hlayout]
    show Gives _ (some (Table.intersectionAs (Table.commonLayout (table :: tables) _) _ _))
    -- only where whole lines are compared, the plan keeps the layout that it has
    cases hc : Table.commonLayout (table :: tables)
        (bs.any fun b => b.any fun m => m.hasOwnPath frame.path) with
    | tripleBased =>
      have hfirst := (Table.commonLayout_eq_tripleBased_iff.1 hc).2 table (List.mem_cons_self ..)
      exact .some ⟨(Plan.layout_intersection p ps).trans (hp.layout.trans hfirst), hdelivers _⟩
    | aggregated => exact .some ⟨rfl, (hdelivers _).relabel .aggregated⟩

end Branches

/-! ## Disjunctions -/

/-- Planned without given targets, the members of branches plan what is found of their pieces. -/
theorem planFound_branches (h : List.Forall₂ (AllRealize ctx frame) bs branches) :
    List.Forall₂ (List.Forall₂ (PlansPart frame fun m => m.plan frame none)) bs
      (branches.map fun b => b.map Piece.part) :=
  List.forall₂_map_right_iff.2 (h.imp fun _ _ hb =>
    List.forall₂_map_right_iff.2 (hb.imp fun _ _ hm => hm.planFound))

/-- Planned for given targets, members plan what their pieces say of these. -/
theorem planAmong_members (h : AllRealize ctx frame ms pieces) {q : Plan} {rows : List Row}
    (hq : q.Lists rows) : List.Forall₂ (PlansPart frame fun m => m.plan frame (some (.ok q))) ms
      (pieces.map (Piece.partAmong ctx.source.store (rows.map Row.target).toFinset)) :=
  List.forall₂_map_right_iff.2 (h.imp fun _ _ hm => hm.planAmong hq)

/-- So do the members of branches. -/
theorem planAmong_branches (h : List.Forall₂ (AllRealize ctx frame) bs branches) {q : Plan}
    {rows : List Row} (hq : q.Lists rows) :
    List.Forall₂ (List.Forall₂ (PlansPart frame fun m => m.plan frame (some (.ok q)))) bs
      (Piece.branchesAmong ctx.source.store (rows.map Row.target).toFinset branches) :=
  List.forall₂_map_right_iff.2 (h.imp fun _ _ hb => planAmong_members hb hq)

/-- The plans of the candidates: the violators of every branch, each branch judged by itself. -/
theorem candidatesOf_eq (h : List.Forall₂ (AllRealize ctx frame) bs branches) :
    ∃ plans, candidatesOf ctx frame bs = .ok plans ∧
      List.Forall₂ (fun p t => Plan.Ascends p (targetLines (Table.targets t))) plans
        (Piece.candidates branches) := by
  unfold Piece.candidates
  induction h with
  | nil => exact ⟨[], rfl, .nil⟩
  | @cons b pieces bs branches hb _ ih =>
    obtain ⟨plans, hplans, hascends⟩ := ih
    obtain ⟨p?, hp, hrel⟩ := gives_conjunction hb
    have hconjoin : Table.unite (pieces.map Piece.touchedPart) = View.conjoin pieces := rfl
    rw [List.filterMap_cons, hconjoin]
    cases hu : View.conjoin pieces with
    | none =>
      rw [hu] at hrel
      cases hrel
      refine ⟨plans, ?_, hascends⟩
      rw [candidatesOf, hp]
      exact hplans
    | some table =>
      rw [hu] at hrel
      cases hrel with
      | @some p _ hp' =>
        -- plans :: of the violators only the targets are kept
        refine ⟨p.trimTo 1 :: plans, ?_, .cons ?_ hascends⟩
        · rw [candidatesOf, hp, hplans]
          rfl
        · have htargets : targetLines table.targets = table.lines.image (List.take 1) :=
            hp'.delivers.image_take_one.symm
          rw [htargets]
          exact hp'.delivers.ascends.trimTo_one

/-- The targets of several tables are the union of the targets of each. -/
theorem targetLines_targetsOf (tables : List Table) :
    targetLines (Table.targetsOf tables) =
      (tables.map fun t => targetLines t.targets).foldr (· ∪ ·) ∅ := by
  induction tables with
  | nil => rfl
  | cons t tables ih =>
    rw [List.map_cons, List.foldr_cons, ← ih]
    exact Finset.image_union t.targets (Table.targetsOf tables)

/-- The union of the candidates' plans hands out the candidates. -/
theorem exists_lists_candidates {plans : List Plan} {tables : List Table}
    (h : List.Forall₂ (fun p t => Plan.Ascends p (targetLines (Table.targets t))) plans tables) :
    ∃ rows, (Plan.unique (.union plans) none).Lists rows ∧
      (rows.map Row.target).toFinset = Table.targetsOf tables := by
  obtain ⟨rows, hlists, -, hlines⟩ :=
    (Plan.ascends_union (List.forall₂_map_right_iff.2 h)).unique
  rw [← targetLines_targetsOf] at hlines
  exact ⟨rows, hlists, Row.toFinset_map_target hlines⟩

/-- A disjunction of several members first looks for its candidates, unless there was no data
before. -/
theorem gives_candidates (hr : ctx.Reliable)
    (h : List.Forall₂ (AllRealize ctx frame) bs branches) :
    Gives (candidates ctx frame bs none >>= fun
        | none => .ok none
        | some given => intersectBranches frame bs given)
      ((ctx.view frame.targets hr).intersectBranches branches) := by
  unfold candidates View.intersectBranches
  cases he : ctx.baseEmpty with
  | true =>
    -- into an empty store, all targets of the delta are candidates
    have hrestricted : (ctx.view frame.targets hr).restricted = false := congrArg not he
    rw [hrestricted]
    exact gives_intersectBranches (planFound_branches h)
  | false =>
    have hrestricted : (ctx.view frame.targets hr).restricted = true := congrArg not he
    obtain ⟨plans, hplans, hascends⟩ := candidatesOf_eq h
    rw [hrestricted, hplans, if_pos rfl]
    generalize Piece.candidates branches = tables at hascends
    cases hascends with
    | nil => exact .none
    | @cons p table ps tables hp hps =>
      obtain ⟨rows, hlists, hrows⟩ := exists_lists_candidates (.cons hp hps)
      rw [if_neg (List.cons_ne_nil table tables), ← hrows]
      exact gives_intersectBranches (planAmong_branches h hlists)

/-- Branches are not missing, and none of them is empty. -/
theorem disjunction_eq (hne : bs ≠ []) (hbs : ∀ b ∈ bs, b ≠ []) (hs : ∀ m, bs ≠ [[m]])
    (given : Option Offer) : disjunction ctx frame bs given =
      (candidates ctx frame bs given >>= fun
        | none => .ok none
        | some given => intersectBranches frame bs given) := by
  have hok : (bs.isEmpty || bs.any List.isEmpty) = false := by
    rw [Bool.or_eq_false_iff, List.isEmpty_eq_false_iff, List.any_eq_false]
    exact ⟨hne, fun b hb he => hbs b hb (List.isEmpty_iff.1 he)⟩
  unfold disjunction
  rw [hok]
  split
  · next m => exact absurd rfl (hs m)
  · rfl

/-- A disjunction without given targets plans what the pass reports about it. -/
theorem gives_disjunction (hr : ctx.Reliable) (hne : bs ≠ []) (hbs : ∀ b ∈ bs, b ≠ [])
    (h : List.Forall₂ (AllRealize ctx frame) bs branches) :
    Gives (disjunction ctx frame bs none) ((ctx.view frame.targets hr).disjoin branches) := by
  rcases Table.single_or_of_forall₂ h with ⟨m, p, rfl, rfl, hm⟩ | ⟨hs, hs'⟩
  · exact hm.found
  · rw [disjunction_eq hne hbs hs, View.disjoin_eq_intersectBranches hs']
    exact gives_candidates hr h

/-- With given targets, a disjunction plans for these what its branches say. -/
theorem gives_disjunction_given {parts : List (List Table.Part)} {q : Plan} (hne : bs ≠ [])
    (hbs : ∀ b ∈ bs, b ≠ [])
    (h : List.Forall₂ (List.Forall₂ (PlansPart frame fun m => m.plan frame (some (.ok q))))
      bs parts) : Gives (disjunction ctx frame bs (some (.ok q))) (Table.disjoin parts) := by
  rcases Table.single_or_of_forall₂ h with ⟨m, p, rfl, rfl, hm⟩ | ⟨hs, hs'⟩
  · exact hm.gives
  · have hcandidates : candidates ctx frame bs (some (.ok q)) = .ok (some (some (.ok q))) := by
      unfold candidates
      cases ctx.config.cacheSelectNodes <;> rfl
    rw [disjunction_eq hne hbs hs, hcandidates, Table.disjoin_eq_intersect hs']
    exact gives_intersectBranches h

/-! ## Negated branches -/

/-- Members of which each is a branch of its own leave no branch empty. -/
theorem singletons_ne_nil (hne : ms ≠ []) :
    (ms.map fun m => [m]) ≠ [] ∧ ∀ b ∈ ms.map fun m => [m], b ≠ [] := by
  refine ⟨fun hnil => hne (List.map_eq_nil_iff.1 hnil), fun b hb => ?_⟩
  obtain ⟨m, -, rfl⟩ := List.mem_map.1 hb
  exact List.cons_ne_nil m []

/-- The delta bears on members exactly if the view bears on one of their pieces. -/
theorem anyTouched_eq {delta : Delta} (hr : ctx.restriction = some delta)
    (h : AllRealize ctx frame ms pieces) :
    negatedBranch.anyTouched frame delta ms = .ok (pieces.any Piece.touched) := by
  induction h with
  | nil => rfl
  | cons hm _ ih => exact Except.or_eq_ok (hm.touched delta hr) ih

/-- Members set a path of their own exactly if their pieces do. -/
theorem any_ownPath_eq (h : AllRealize ctx frame ms pieces) :
    (ms.any fun m => m.hasOwnPath frame.path) = pieces.any Piece.ownPath :=
  any_eq_of_forall₂ (h.imp fun _ _ hm => hm.ownPath)

/-- In a bulk pass a piece that is passed over has no table. -/
theorem found_eq_none (hb : ctx.restriction = none) (h : AllRealize ctx frame ms pieces)
    (ht : pieces.any Piece.touched = false) : ∀ p ∈ pieces, p.found = none := by
  induction h with
  | nil => exact fun p hp => absurd hp List.not_mem_nil
  | cons hm _ ih =>
    rw [List.any_cons, Bool.or_eq_false_iff] at ht
    exact List.forall_mem_cons.2 ⟨hm.untouched hb ht.1, ih ht.2⟩

/-- For given targets, the negation of a branch plans the negation of its parts. -/
theorem plansPart_negatedBranch {q : Plan} {parts : List Table.Part} (hne : ms ≠ [])
    (h : List.Forall₂ (PlansPart frame fun m => m.plan frame (some (.ok q))) ms parts) :
    PlansPart frame (fun m => m.plan frame (some (.ok q))) (negatedBranch ctx ms)
      (Table.Part.negatedBranch parts) where
  gives := gives_disjunction_given (singletons_ne_nil hne).1 (singletons_ne_nil hne).2
    (Table.forall₂_singletons h)
  ownPath := any_eq_of_forall₂ (h.imp fun _ _ hm => hm.ownPath)

/-- The negation of a branch realizes the negation of its pieces. -/
theorem realizes_negatedBranch (hr : ctx.Reliable) (hne : ms ≠ [])
    (h : AllRealize ctx frame ms pieces) :
    (negatedBranch ctx ms).Realizes ctx frame
      ((ctx.view frame.targets hr).negatedBranch pieces) where
  found := gives_disjunction hr (singletons_ne_nil hne).1 (singletons_ne_nil hne).2
    (Table.forall₂_singletons h)
  among hq := (plansPart_negatedBranch hne (planAmong_members h hq)).gives
  ownPath := any_ownPath_eq h
  touched _ hd := anyTouched_eq hd h
  untouched hb ht := View.disjoin_eq_none (Piece.forall_mem_singletons (found_eq_none hb h ht))

end Member

end GraphShapes.Unshared
