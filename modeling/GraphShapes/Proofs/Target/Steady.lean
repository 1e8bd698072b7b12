import GraphShapes.Plan.Conditions
import GraphShapes.Planner.Touched
import GraphShapes.Proofs.RowFeed.Upto

/-!
# Sources that fail, and the same sources without failures

`Source.steady` is the source with the same statements that answers every scan. Whatever is asked of
a source, the answer, if there is one, is the answer of the steady source: a scan that breaks off
has delivered nothing else, and no question takes the end of a broken scan for the end of the hits.
This covers selectors, scans for targets and for values, and what a delta touches.
-/

namespace GraphShapes

/-- The source with the same statements that answers every scan. -/
def Source.steady (s : Source) : Source := .ofStore s.store

/-- The delta with the same changes whose sides answer every scan. -/
def Delta.steady (d : Delta) : Delta := ⟨d.added.steady, d.removed.steady⟩

@[simp] theorem Source.steady_during (s : Source) (c : Conditions) :
    (s.during c).steady = s.steady := rfl

/-- Under no conditions do steady sides fail to answer, and they hold the same changes. -/
@[simp] theorem Delta.steady_during (d : Delta) (c : Conditions) :
    (d.during c).steady = d.steady := rfl

/-- Going on after a test that says no. -/
theorem Except.Upto.or {ε ε' : Type} {x y : Except ε Bool} {x' y' : Except ε' Bool}
    (hx : Except.Upto Eq x x') (hy : Except.Upto Eq y y') :
    Except.Upto Eq
      (do
        if ← x then return true
        y)
      (do
        if ← x' then return true
        y') := by
  refine hx.bindEq fun b => ?_
  cases b with
  | true => exact .pure rfl
  | false => exact hy

namespace Source

variable (s : Source)

/-- A scan that breaks off has delivered hits of the steady scan only. -/
theorem scan_upto (p : Pattern) : Except.Upto Feed.Upto (s.scan p) (s.steady.scan p) := by
  have hsteady : s.steady.scan p = .ok (Feed.ofList (s.store.scan p)) := rfl
  rw [hsteady]
  unfold scan
  cases s.fault p with
  | none => exact .pure (.refl _)
  | some fault =>
    cases fault with
    | refused e => exact .error e _
    | brokenOff n e => exact .pure (.breaking e n _)

/-- The hits of a pattern, if they could all be read. -/
theorem hits_upto (p : Pattern) : Except.Upto Eq (s.hits p) (s.steady.hits p) :=
  (s.scan_upto p).bind fun _ _ h => h.toExcept

/-- Whether there is a hit, if that could be found out. -/
theorem hasMatch_upto (p : Pattern) : Except.Upto Eq (s.hasMatch p) (s.steady.hasMatch p) :=
  (s.scan_upto p).bind fun _ _ h => h.nonempty

/-- Whether a statement mentions a node. A failure in one position is not taken for a no. -/
theorem mentions_upto (node : Term) : Except.Upto Eq (s.mentions node) (s.steady.mentions node) :=
  (s.hasMatch_upto _).or (s.hasMatch_upto _)

end Source

/-- The values along a path. -/
theorem Path.rowsOf_upto (s : Source) (path : Option Path) (row : Row) :
    Except.Upto Eq (rowsOf s path row) (rowsOf s.steady path row) := by
  cases path with
  | none => exact .pure rfl
  | some p =>
    rw [rowsOf, rowsOf]
    cases hhits : s.hits (p.pattern row.target) with
    | error e => exact .error _ _
    | ok sts =>
      obtain ⟨_, hsteady, rfl⟩ := s.hits_upto _ sts hhits
      rw [hsteady]
      exact .pure rfl

namespace Delta

variable (d : Delta)

/-- Whether a pattern matches on either side of a delta. -/
theorem touches_upto (p : Pattern) : Except.Upto Eq (d.touches p) (d.steady.touches p) :=
  (d.added.hasMatch_upto p).or (d.removed.hasMatch_upto p)

end Delta

namespace Target

variable (s : Source) (d : Delta) (target : Target)

/-- The targets that a selector picks. -/
theorem select_upto : Except.Upto Eq (target.select s) (target.select s.steady) := by
  cases target with
  | nodes listed => exact .pure rfl
  | instancesOf c => exact (s.hits_upto _).bindEq fun _ => .pure rfl
  | subjectsOf p => exact (s.hits_upto _).bindEq fun _ => .pure rfl
  | objectsOf p => exact (s.hits_upto _).bindEq fun _ => .pure rfl

/-- Whether a selector picks a term. -/
theorem contains_upto (term : Term) :
    Except.Upto Eq (target.contains s term) (target.contains s.steady term) := by
  cases target with
  | nodes listed => exact .pure rfl
  | instancesOf c => exact s.hasMatch_upto _
  | subjectsOf p => exact s.hasMatch_upto _
  | objectsOf p => exact s.hasMatch_upto _

/-- What one side of a delta may have moved in or out. -/
theorem affectedBySide_upto :
    Except.Upto Eq (target.affectedBySide s) (target.affectedBySide s.steady) := by
  cases target with
  | nodes listed => exact .filterM s.mentions_upto listed
  | instancesOf c => exact (instancesOf c).select_upto s
  | subjectsOf p => exact (subjectsOf p).select_upto s
  | objectsOf p => exact (objectsOf p).select_upto s

/-- What a delta may have moved in or out. -/
theorem affected_upto : Except.Upto Eq (target.affected d) (target.affected d.steady) :=
  (target.affectedBySide_upto d.added).bindEq fun _ =>
    (target.affectedBySide_upto d.removed).bindEq fun _ => .pure rfl

/-- Whether a delta mentions one of the listed nodes. -/
theorem anyMentioned_upto : ∀ listed : List Term,
    Except.Upto Eq (anyMentioned d listed) (anyMentioned d.steady listed)
  | [] => .pure rfl
  | node :: rest => by
    have hgone := (d.removed.mentions_upto node).or (anyMentioned_upto rest)
    exact (d.added.mentions_upto node).or hgone

/-- Whether a delta bears on a selector at all. -/
theorem touchedBy_upto : Except.Upto Eq (target.touchedBy d) (target.touchedBy d.steady) := by
  cases target with
  | nodes listed => exact anyMentioned_upto d listed
  | instancesOf c => exact d.touches_upto _
  | subjectsOf p => exact d.touches_upto _
  | objectsOf p => exact d.touches_upto _

end Target

namespace TargetScan

/-- Whether one of several selectors picks a term. -/
theorem isSelected_upto (s : Source) (term : Term) : ∀ targets : List Target,
    Except.Upto Eq (isSelected s term targets) (isSelected s.steady term targets)
  | [] => .pure rfl
  | t :: rest => (t.contains_upto s term).or (isSelected_upto s term rest)

/-- What several selectors pick, however a single one is asked. -/
theorem selectAll_upto {select select' : Target → Except Error Selection}
    (h : ∀ t, Except.Upto Eq (select t) (select' t)) : ∀ (targets : List Target) (acc : Selection),
    Except.Upto Eq (selectAll select targets acc) (selectAll select' targets acc)
  | [], _ => .pure rfl
  | t :: rest, _ => (h t).bindEq fun _ => selectAll_upto h rest _

/-- The subjects of changed statements along a path. -/
theorem changedAlong_upto (d : Delta) (path : Option Path) :
    Except.Upto Eq (changedAlong d path) (changedAlong d.steady path) := by
  cases path with
  | none => exact .pure rfl
  | some p =>
    exact (d.added.hits_upto _).bindEq fun _ => (d.removed.hits_upto _).bindEq fun _ => .pure rfl

end TargetScan

/-- The mode in which the delta answers every scan. -/
def TargetMode.steady : TargetMode → TargetMode
  | all => all
  | affected delta path => affected delta.steady path

namespace TargetScan

/-- The scan over sources that answer every scan. -/
def steady (scan : TargetScan) : TargetScan := ⟨scan.source.steady, scan.targets, scan.mode.steady⟩

theorem steady_during (scan : TargetScan) (c : Conditions) : (scan.during c).steady = scan.steady := by
  obtain ⟨source, targets, mode⟩ := scan
  cases mode <;> rfl

/-- The targets of a scan, of all of the source or of what a commit may affect. -/
theorem select_upto (scan : TargetScan) : Except.Upto Eq scan.select scan.steady.select := by
  obtain ⟨s, targets, mode⟩ := scan
  cases mode with
  | all => exact selectAll_upto (fun t => t.select_upto s) targets []
  | affected d path =>
    refine (selectAll_upto (fun t => t.affected_upto d) targets []).bindEq fun _ => ?_
    refine (changedAlong_upto d path).bindEq fun _ => ?_
    exact .filterM (fun term => isSelected_upto s term targets) _

/-- The rows of a scan. A failure in selecting comes before the first row. -/
theorem rows_upto (scan : TargetScan) : scan.rows.Upto scan.steady.rows := by
  have hscope : scan.steady.scope = scan.scope := by
    obtain ⟨s, targets, mode⟩ := scan
    cases mode <;> rfl
  unfold rows
  rw [hscope]
  cases hselect : scan.select with
  | error e => exact .failed _ _
  | ok terms =>
    obtain ⟨_, hsteady, rfl⟩ := scan.select_upto terms hselect
    rw [hsteady]
    exact .refl _

end TargetScan

/-! ## What a delta touches -/

section Touched

variable (d : Delta)

/-- Whether a delta bears on one of several selectors. -/
theorem Delta.touchesTargets_upto : ∀ targets : List Target,
    Except.Upto Eq (d.touchesTargets targets) (d.steady.touchesTargets targets)
  | [] => .pure rfl
  | t :: rest => (t.touchedBy_upto d).or (Delta.touchesTargets_upto rest)

/-- Whether it bears on a frame. -/
theorem Frame.touched_upto (frame : Frame) :
    Except.Upto Eq (frame.touched d) (frame.touched d.steady) := by
  refine (d.touchesTargets_upto frame.targets).or ?_
  cases frame.path with
  | none => exact .pure rfl
  | some path => exact d.touches_upto _

namespace Shape

mutual

/-- Whether a delta bears on a shape, by recursion over the tree. -/
theorem touched_upto : ∀ (s : Shape) (frame : Frame),
    Except.Upto Eq (s.touched d frame) (s.touched d.steady frame)
  | constraint h _, frame => by
    rw [touched, touched]
    cases h.deactivated with
    | true => exact .pure rfl
    | false => exact (frame.within h.path).touched_upto d
  | conj h ms, frame => by
    rw [touched, touched]
    cases h.deactivated with
    | true => exact .pure rfl
    | false => exact ((frame.within h.path).touched_upto d).or (anyTouched_upto ms _)
  | disj h bs, frame => by
    rw [touched, touched]
    cases h.deactivated with
    | true => exact .pure rfl
    | false => exact ((frame.within h.path).touched_upto d).or (anyBranchTouched_upto bs _)
  | neg h inner, frame => by
    rw [touched, touched]
    cases h.deactivated with
    | true => exact .pure rfl
    | false => exact ((frame.within h.path).touched_upto d).or (touched_upto inner _)

/-- Whether it bears on a member. -/
theorem anyTouched_upto : ∀ (ss : List Shape) (frame : Frame),
    Except.Upto Eq (anyTouched d ss frame) (anyTouched d.steady ss frame)
  | [], _ => .pure rfl
  | s :: rest, frame => (touched_upto s frame).or (anyTouched_upto rest frame)

/-- Whether it bears on a member of a branch. -/
theorem anyBranchTouched_upto : ∀ (bs : List (List Shape)) (frame : Frame),
    Except.Upto Eq (anyBranchTouched d bs frame) (anyBranchTouched d.steady bs frame)
  | [], _ => .pure rfl
  | b :: rest, frame => (anyTouched_upto b frame).or (anyBranchTouched_upto rest frame)

end

end Shape

/-- Whether it bears on a node shape. -/
theorem NodeShape.touched_upto (node : NodeShape) :
    Except.Upto Eq (node.touched d) (node.touched d.steady) := by
  unfold touched
  cases node.deactivated with
  | true => exact .pure rfl
  | false =>
    exact (d.touchesTargets_upto node.targets).or (Shape.anyTouched_upto d node.shapes (.root node))

end Touched

end GraphShapes
