import GraphShapes.Proofs.Planner.Among
import GraphShapes.Proofs.Planner.Sharing

/-!
# What the plan of a shape delivers

Planning a well-formed shape over sources that answer never fails, and the plan delivers what the
pass reports about the shape (`Shape.plan_answers`): the lines of `Shape.changes` in the layout that
is said there, each once and in ascending order; there is no plan where there is no table.

The induction over the shape tree (`Shape.realizes`) says what is planned from nothing. What is
planned for given targets enters it where a disjunction plans its branches for the candidates that
it has planned before. It is about plans without splitters; the planner comes to the same with them
(`Shape.plan_comes`).
-/

namespace GraphShapes

namespace Unshared

variable {ctx : Context} {frame : Frame}

/-- A constraint without given targets plans what the pass sees. -/
theorem gives_plan (hr : ctx.Reliable) (id : ShapeId) (c : Constraint) (negate : Bool) :
    Gives (do return some (← plan ctx frame id c none negate))
      (some (c.table ctx.source.store ((ctx.view frame.targets hr).targets frame.path)
        frame.path negate)) :=
  .some (shows_tag hr.source rfl (hr.delivers_scan frame) id negate)

end Unshared

namespace Shape

open Unshared (Gives)
open Unshared.Member (Realizes AllRealize)

variable {ctx : Context} {targets : List Target}

/-- The shape realizes its piece: what is planned for it is what the pass reports about it. -/
abbrev RealizesPiece (ctx : Context) (targets : List Target) (hr : ctx.Reliable) (s : Shape) :
    Prop :=
  ∀ (path : Option Path) (negate : Bool), (s.unsharedMember ctx negate).Realizes ctx
    ⟨targets, path⟩ (s.piece (ctx.view targets hr) path negate)

/-- Besides what is planned from nothing, the piece says nothing that is not known. -/
theorem realizes_of_gives {hr : ctx.Reliable} {s : Shape} (hw : s.wellFormed = true)
    {path : Option Path} {negate : Bool}
    (hfound : Gives (s.unshared ctx ⟨targets, path⟩ none negate)
      (s.changes (ctx.view targets hr) path negate)) :
    (s.unsharedMember ctx negate).Realizes ctx ⟨targets, path⟩
      (s.piece (ctx.view targets hr) path negate) where
  found := hfound
  among hq := gives_among hr.source hq s hw ⟨targets, path⟩ negate
  ownPath := rfl
  touched _ hd := hr.touched_eq hd targets s path
  untouched hb ht := changes_eq_none (fun p => (hr.bulk hb targets p).1)
    (fun p => (hr.bulk hb targets p).2) ht negate

theorem realize_members {hr : ctx.Reliable} {ms : List Shape}
    (h : ∀ m ∈ ms, RealizesPiece ctx targets hr m) (path : Option Path) (negate : Bool) :
    AllRealize ctx ⟨targets, path⟩ (unsharedMembers ctx negate ms)
      (pieces (ctx.view targets hr) ms path negate) := by
  rw [unsharedMembers_eq_map, pieces_eq_map]
  exact forall₂_map_of_forall_mem fun m hm => h m hm path negate

theorem realize_branches {hr : ctx.Reliable} {bs : List (List Shape)}
    (h : ∀ b ∈ bs, ∀ m ∈ b, RealizesPiece ctx targets hr m) (path : Option Path) (negate : Bool) :
    List.Forall₂ (AllRealize ctx ⟨targets, path⟩) (unsharedBranches ctx negate bs)
      (branchPieces (ctx.view targets hr) bs path negate) := by
  induction bs with
  | nil => exact .nil
  | cons b bs ih =>
    obtain ⟨hb, hbs⟩ := List.forall_mem_cons.1 h
    exact .cons (realize_members hb path negate) (ih hbs)

theorem realize_negatedBranches {hr : ctx.Reliable} {bs : List (List Shape)}
    (hbs : ∀ b ∈ bs, b ≠ []) (h : ∀ b ∈ bs, ∀ m ∈ b, RealizesPiece ctx targets hr m)
    (path : Option Path) :
    AllRealize ctx ⟨targets, path⟩
      ((unsharedBranches ctx true bs).map (Unshared.Member.negatedBranch ctx))
      ((branchPieces (ctx.view targets hr) bs path true).map
        (ctx.view targets hr).negatedBranch) := by
  induction bs with
  | nil => exact .nil
  | cons b bs ih =>
    obtain ⟨hb, hbs'⟩ := List.forall_mem_cons.1 h
    obtain ⟨hne, hnes⟩ := List.forall_mem_cons.1 hbs
    exact .cons (Unshared.Member.realizes_negatedBranch hr (unsharedMembers_ne_nil ctx hne true)
      (realize_members hb path true)) (ih hnes hbs')

section Combinators

variable {hr : ctx.Reliable} {h : ShapeHead}

theorem realizes_deactivated {s : Shape} (hw : s.wellFormed = true) (hd : s.deactivated = true) :
    RealizesPiece ctx targets hr s := by
  refine fun path negate => realizes_of_gives hw ?_
  have hchanges : s.changes (ctx.view targets hr) path negate = none := by
    cases s <;> exact if_pos hd
  rw [unshared_of_deactivated hd, hchanges]
  exact .none

theorem gives_conj {ms : List Shape} (hd : h.deactivated = false) (hne : ms ≠ [])
    (ih : ∀ m ∈ ms, RealizesPiece ctx targets hr m) (path : Option Path) (negate : Bool) :
    Gives ((conj h ms).unshared ctx ⟨targets, path⟩ none negate)
      ((conj h ms).changes (ctx.view targets hr) path negate) := by
  have hempty : ms.isEmpty = false := List.isEmpty_eq_false_iff.2 hne
  have hms := realize_members ih (h.path.or path) negate
  rw [unshared, changes, hd, hempty]
  cases negate with
  | false => exact (Unshared.Member.gives_conjunction hms).tag h.id
  | true =>
    -- the negation of a conjunction has a branch for every member
    have hnil := Unshared.Member.singletons_ne_nil (unsharedMembers_ne_nil ctx hne true)
    exact (Unshared.Member.gives_disjunction hr hnil.1 hnil.2
      (Table.forall₂_singletons hms)).tag h.id

theorem gives_disj {bs : List (List Shape)} (hd : h.deactivated = false) (hne : bs ≠ [])
    (hbs : ∀ b ∈ bs, b ≠ []) (ih : ∀ b ∈ bs, ∀ m ∈ b, RealizesPiece ctx targets hr m)
    (path : Option Path) (negate : Bool) :
    Gives ((disj h bs).unshared ctx ⟨targets, path⟩ none negate)
      ((disj h bs).changes (ctx.view targets hr) path negate) := by
  have hempty : bs.isEmpty = false := List.isEmpty_eq_false_iff.2 hne
  have hany : bs.any List.isEmpty = false :=
    List.any_eq_false.2 fun b hb he => hbs b hb (List.isEmpty_iff.1 he)
  rw [unshared, changes, hd, hempty, hany]
  cases negate with
  | false =>
    have hnil := unsharedBranches_ne_nil ctx hne hbs false
    exact (Unshared.Member.gives_disjunction hr hnil.1 hnil.2
      (realize_branches ih (h.path.or path) false)).tag h.id
  | true =>
    exact (Unshared.Member.gives_conjunction
      (realize_negatedBranches hbs ih (h.path.or path))).tag h.id

end Combinators

/-- Every well-formed shape realizes its piece. -/
theorem realizes (hr : ctx.Reliable) (targets : List Target) (s : Shape)
    (hw : s.wellFormed = true) : RealizesPiece ctx targets hr s := by
  induction s using active_induction with
  | deactivated s hd => exact realizes_deactivated hw hd
  | constraint h c hd =>
    refine fun path negate => realizes_of_gives hw ?_
    rw [unshared, changes, hd]
    exact Unshared.gives_plan hr h.id c negate
  | conj h ms hd ih =>
    obtain ⟨hne, hms⟩ := wellFormed_conj hw hd
    exact fun path negate => realizes_of_gives hw
      (gives_conj hd hne (fun m hm => ih m hm (hms m hm)) path negate)
  | disj h bs hd ih =>
    obtain ⟨hne, hbs⟩ := wellFormed_disj hw hd
    exact fun path negate => realizes_of_gives hw
      (gives_disj hd hne (fun b hb => (hbs b hb).1)
        (fun b hb m hm => ih b hb m hm ((hbs b hb).2 m hm)) path negate)
  | neg h inner hd ih =>
    refine fun path negate => realizes_of_gives hw ?_
    rw [unshared, changes, hd]
    exact ((ih (wellFormed_neg hw hd) (h.path.or path) (!negate)).found).tag h.id

end Shape

namespace Plan

/-- Among its splitters the plan delivers the lines of the table, each of them once and in ascending
order, and it declares the table's layout. -/
structure Answers (splitters : Splitters) (p : Plan) (table : Table) : Prop where
  layout : p.layout = table.layout
  collects : ∃ rows, p.collect splitters = .ok rows ∧ Row.Strict rows ∧
    Row.lines rows = table.lines

theorem Mirrors.answers {ss : Splitters} {p q : Plan} {table : Table} (h : p.Mirrors ss q)
    (hq : q.Shows table) : p.Answers ss table := by
  obtain ⟨rows, hlists, hstrict, hlines⟩ := hq.delivers
  refine ⟨h.layout.trans hq.layout, rows, ?_, hstrict, hlines⟩
  rw [collect, h.feed .refl, hlists]
  exact Feed.toExcept_ofList rows

end Plan

/-- What is planned without splitters is what the planner's plan answers with. -/
theorem Planning.answers_of_comes {step : Planning (Option Plan)} {draft : Draft}
    {value : Except PlanError (Option Plan)} {table : Option Table}
    (hcomes : Planning.Comes step draft.splitters value Plan.OptMirrors)
    (h : Unshared.Gives value table) :
    ∃ plan later, step.run.run draft = (.ok plan, later) ∧
      Option.Rel (Plan.Answers later.splitters) plan table := by
  obtain ⟨q, rfl, hshows⟩ := h
  have hshows : Option.Rel Plan.Shows q table := hshows
  -- the planner comes to the same with its splitters
  obtain ⟨later, -, ⟨e, -, he⟩ | ⟨p, q', hrun, hq', hmirrors⟩⟩ := hcomes draft rfl
  · cases he
  · obtain rfl := Except.ok.inj hq'
    refine ⟨p, later, hrun, ?_⟩
    cases hmirrors with
    | none =>
      cases hshows
      exact .none
    | some hp =>
      cases hshows with
      | some hs => exact .some (hp.answers hs)

/-- Planned from nothing, a well-formed shape has a plan exactly if the pass reports a table, and
the plan delivers its lines. -/
theorem Shape.plan_answers {ctx : Context} (hr : ctx.Reliable) {s : Shape}
    (hw : s.wellFormed = true) (frame : Frame) (negate : Bool) :
    ∃ plan draft, (s.plan ctx frame none negate).run.run {} = (.ok plan, draft) ∧
      Option.Rel (Plan.Answers draft.splitters) plan
        (s.changes (ctx.view frame.targets hr) frame.path negate) :=
  Planning.answers_of_comes (s.plan_comes ctx negate .none)
    (s.realizes hr frame.targets hw frame.path negate).found

end GraphShapes
