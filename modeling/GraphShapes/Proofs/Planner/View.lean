import GraphShapes.Planner.Focus
import GraphShapes.Proofs.Meaning.Changes
import GraphShapes.Proofs.Target.Scan

/-!
# How a planning pass sees its data

A context whose source and delta answer every scan sees its data as a `View`: the targets are what
its scans deliver, and the delta bears on a path where `Frame.touched` says so. What the view calls
touched is what the planner calls touched (`Shape.touched_eq`).

A pass without a restriction sees the whole selection, on every path (`Context.Reliable.bulk`).
-/

namespace GraphShapes

namespace Context

/-- No scan of the source fails, and none of the delta if the pass looks at it. -/
structure Reliable (ctx : Context) : Prop where
  source : ctx.source.Reliable
  delta : ∀ delta, ctx.restriction = some delta → delta.Reliable

variable {ctx : Context}

/-- The terms that the scan of a pass delivers; none if it fails. -/
def seen (ctx : Context) (targets : List Target) (path : Option Path) : Selection :=
  match (TargetScan.mk ctx.source targets (ctx.targetMode path)).select with
  | .ok selection => selection
  | .error _ => []

/-- Does the delta of the pass bear on the selectors or the path? -/
def bears (ctx : Context) (targets : List Target) (path : Option Path) : Bool :=
  match ctx.restriction with
  | none => true
  | some delta =>
    match (Frame.mk targets path).touched delta with
    | .ok b => b
    | .error _ => false

/-- A pass looks at a selected target if the delta marks it or changes what follows. -/
def Concerns (ctx : Context) (targets : List Target) (path : Option Path) (x : Term) : Prop :=
  ∀ delta, ctx.restriction = some delta →
    (∃ t ∈ targets, delta.Marks t x) ∨ delta.Starts path x

theorem Reliable.select (h : ctx.Reliable) (targets : List Target) (path : Option Path) :
    (TargetScan.mk ctx.source targets (ctx.targetMode path)).select =
        .ok (ctx.seen targets path) ∧
      (ctx.seen targets path).Ascending ∧
      ∀ x, x ∈ ctx.seen targets path ↔
        x ∈ ctx.source.store.selection targets ∧ ctx.Concerns targets path x := by
  unfold seen targetMode
  cases hr : ctx.restriction with
  | none =>
    obtain ⟨selection, hselect, hasc, hiff⟩ := TargetScan.select_all h.source targets
    simp only [hselect]
    refine ⟨trivial, hasc, fun x => (hiff x).trans ⟨fun hx => ⟨hx, fun _ hd => ?_⟩, And.left⟩⟩
    -- there is no delta that would have to concern the target
    rw [hr] at hd
    cases hd
  | some delta =>
    obtain ⟨selection, hselect, hasc, hiff⟩ :=
      TargetScan.select_affected h.source (h.delta delta hr) targets path
    simp only [hselect]
    refine ⟨trivial, hasc, fun x => (hiff x).trans (and_congr_right fun _ => ?_)⟩
    refine ⟨fun hx d hd => ?_, fun hx => hx delta hr⟩
    rw [hr] at hd
    exact Option.some.inj hd ▸ hx

theorem Reliable.bears_eq (h : ctx.Reliable) (targets : List Target) (path : Option Path) :
    ctx.bears targets path = true ↔ ∀ delta, ctx.restriction = some delta →
      (∃ t ∈ targets, ∃ x, delta.Marks t x) ∨ ∃ x, delta.Starts path x := by
  unfold bears
  cases hr : ctx.restriction with
  | none => simp
  | some delta =>
    obtain ⟨b, hb, hiff⟩ := Frame.touched_eq (h.delta delta hr) ⟨targets, path⟩
    simp only [hb]
    refine hiff.trans ⟨fun hx d hd => Option.some.inj hd ▸ hx, fun hx => hx delta rfl⟩

/-- The data as the pass sees it. -/
def view (ctx : Context) (targets : List Target) (h : ctx.Reliable) : View where
  graph := ctx.source.store
  targets path := (ctx.seen targets path).toFinset
  bears := ctx.bears targets
  restricted := !ctx.baseEmpty
  idle path hb := by
    refine Finset.eq_empty_of_forall_notMem fun x hx => ?_
    rw [List.mem_toFinset, (h.select targets path).2.2] at hx
    -- a target that the delta concerns makes the delta bear on the path
    have hbears : ctx.bears targets path = true := by
      refine (h.bears_eq targets path).2 fun delta hd => ?_
      rcases hx.2 delta hd with ⟨t, ht, hm⟩ | hs
      · exact .inl ⟨t, ht, x, hm⟩
      · exact .inr ⟨x, hs⟩
    rw [hb] at hbears
    cases hbears

theorem mem_view_targets {h : ctx.Reliable} {targets : List Target} {path : Option Path}
    {x : Term} : x ∈ (ctx.view targets h).targets path ↔
      x ∈ ctx.source.store.selection targets ∧ ctx.Concerns targets path x := by
  show x ∈ (ctx.seen targets path).toFinset ↔ _
  rw [List.mem_toFinset, (h.select targets path).2.2]

/-- Without a restriction, every target is seen on every path, and everything is touched. -/
theorem Reliable.bulk (h : ctx.Reliable) (hr : ctx.restriction = none) (targets : List Target)
    (path : Option Path) :
    (ctx.view targets h).targets path = ctx.source.store.selection targets ∧
      (ctx.view targets h).bears path = true := by
  constructor
  · refine Finset.ext fun x => mem_view_targets.trans ⟨And.left, fun hx => ⟨hx, fun _ hd => ?_⟩⟩
    rw [hr] at hd
    cases hd
  · show ctx.bears targets path = true
    rw [bears, hr]

end Context

namespace Shape

variable {delta : Delta}

theorem anyTouched_eq {bears : Option Path → Bool} {frame : Frame} : ∀ {ms : List Shape},
    (∀ m ∈ ms, m.touched delta frame = .ok (m.touches bears frame.path)) →
      anyTouched delta ms frame = .ok (anyTouches bears ms frame.path)
  | [], _ => rfl
  | m :: ms, h => by
    obtain ⟨hm, hms⟩ := List.forall_mem_cons.1 h
    exact Except.or_eq_ok hm (anyTouched_eq hms)

theorem anyBranchTouched_eq {bears : Option Path → Bool} {frame : Frame} :
    ∀ {bs : List (List Shape)},
      (∀ b ∈ bs, ∀ m ∈ b, m.touched delta frame = .ok (m.touches bears frame.path)) →
        anyBranchTouched delta bs frame = .ok (anyBranchTouches bears bs frame.path)
  | [], _ => rfl
  | b :: bs, h => by
    obtain ⟨hb, hbs⟩ := List.forall_mem_cons.1 h
    exact Except.or_eq_ok (anyTouched_eq hb) (anyBranchTouched_eq hbs)

/-- The planner's test for what a delta touches is that of the view. -/
theorem touched_eq {targets : List Target} {bears : Option Path → Bool}
    (h : ∀ path, (Frame.mk targets path).touched delta = .ok (bears path)) (s : Shape) :
    ∀ path, s.touched delta ⟨targets, path⟩ = .ok (s.touches bears path) := by
  induction s using tree_induction with
  | constraint head c =>
    intro path
    rw [touched, touches]
    cases head.deactivated with
    | true => rfl
    | false => exact h _
  | conj head ms ih =>
    intro path
    rw [touched, touches]
    cases head.deactivated with
    | true => rfl
    | false => exact Except.or_eq_ok (h _) (anyTouched_eq fun m hm => ih m hm _)
  | disj head bs ih =>
    intro path
    rw [touched, touches]
    cases head.deactivated with
    | true => rfl
    | false => exact Except.or_eq_ok (h _) (anyBranchTouched_eq fun b hb m hm => ih b hb m hm _)
  | neg head inner ih =>
    intro path
    rw [touched, touches]
    cases head.deactivated with
    | true => rfl
    | false => exact Except.or_eq_ok (h _) (ih _)

end Shape

theorem Context.Reliable.touched_eq {ctx : Context} (h : ctx.Reliable) {delta : Delta}
    (hr : ctx.restriction = some delta) (targets : List Target) (s : Shape) (path : Option Path) :
    s.touched delta ⟨targets, path⟩ = .ok (s.touches (ctx.bears targets) path) := by
  refine Shape.touched_eq (fun path => ?_) s path
  obtain ⟨b, hb, -⟩ := Frame.touched_eq (h.delta delta hr) ⟨targets, path⟩
  rw [hb, Context.bears, hr]
  simp only [hb]

end GraphShapes
