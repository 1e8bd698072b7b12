import GraphShapes.Plan

/-!
# Plans under conditions

Every leaf of a plan asks its sources on an occasion of its own: two leaves that look for the same
pattern need not get the same answer.
-/

namespace GraphShapes

/-- The mode as its delta answers under conditions. -/
def TargetMode.during : TargetMode → Conditions → TargetMode
  | all, _ => all
  | affected delta path, c => affected (delta.during c) path

/-- The scan as its sources answer under conditions. -/
def TargetScan.during (scan : TargetScan) (c : Conditions) : TargetScan where
  source := scan.source.during (c.part 0)
  targets := scan.targets
  mode := scan.mode.during (c.part 1)

theorem TargetScan.during_constant (scan : TargetScan) : scan.during .constant = scan := by
  obtain ⟨source, targets, mode⟩ := scan
  cases mode <;> rfl

namespace Plan

mutual

/-- The plan with the same operators as its sources answer under conditions. -/
def during : Plan → Conditions → Plan
  | empty l, _ => empty l
  | values rows l, _ => values rows l
  | probe p, _ => probe p
  | targetScan scan, c => targetScan (scan.during c)
  | reader s l, _ => reader s l
  | valuesOf targets source path, c =>
    valuesOf (targets.during (c.part 0)) (source.during (c.part 1)) path
  | countValues targets vs label test, c =>
    countValues (targets.during (c.part 0)) (vs.during (c.part 1)) label test
  | filter input label keep, c => filter (input.during (c.part 0)) label keep
  | trim input width, c => trim (input.during (c.part 0)) width
  | sort input, c => sort (input.during (c.part 0))
  | unique input width, c => unique (input.during (c.part 0)) width
  | union inputs, c => union (allDuring inputs c)
  | tag input shape, c => tag (input.during (c.part 0)) shape
  | relabel input l, c => relabel (input.during (c.part 0)) l
  | equalsJoin left right allColumns, c =>
    equalsJoin (left.during (c.part 0)) (right.during (c.part 1)) allColumns
  | innerJoin left right, c => innerJoin (left.during (c.part 0)) (right.during (c.part 1))
  | antiJoin left right, c => antiJoin (left.during (c.part 0)) (right.during (c.part 1))

/-- The plans as their sources answer under conditions. -/
def allDuring : List Plan → Conditions → List Plan
  | [], _ => []
  | p :: rest, c => p.during (c.part 0) :: allDuring rest (c.part 1)

end

mutual

@[simp] theorem during_constant : ∀ p : Plan, p.during .constant = p
  | empty _ => rfl
  | values _ _ => rfl
  | probe _ => rfl
  | targetScan scan => congrArg targetScan scan.during_constant
  | reader _ _ => rfl
  | valuesOf targets source path => congrArg (valuesOf · source path) targets.during_constant
  | countValues targets vs label test => by
    simp only [during, Conditions.part_constant, targets.during_constant, vs.during_constant]
  | filter input label keep => congrArg (filter · label keep) input.during_constant
  | trim input width => congrArg (trim · width) input.during_constant
  | sort input => congrArg sort input.during_constant
  | unique input width => congrArg (unique · width) input.during_constant
  | union inputs => congrArg union (allDuring_constant inputs)
  | tag input shape => congrArg (tag · shape) input.during_constant
  | relabel input l => congrArg (relabel · l) input.during_constant
  | equalsJoin left right allColumns => by
    simp only [during, Conditions.part_constant, left.during_constant, right.during_constant]
  | innerJoin left right => by
    simp only [during, Conditions.part_constant, left.during_constant, right.during_constant]
  | antiJoin left right => by
    simp only [during, Conditions.part_constant, left.during_constant, right.during_constant]

theorem allDuring_constant : ∀ ps : List Plan, allDuring ps .constant = ps
  | [] => rfl
  | p :: rest => by
    simp only [allDuring, Conditions.part_constant, p.during_constant, allDuring_constant rest]

end

end Plan

namespace Splitters

/-- The supplies as their sources answer under conditions. -/
def during (splitters : Splitters) (c : Conditions) : Splitters :=
  splitters.mapIdx fun s supply => supply.during (c.part s)

@[simp] theorem during_constant (splitters : Splitters) : splitters.during .constant = splitters := by
  exact Array.ext (by simp [during]) (by simp [during])

end Splitters

end GraphShapes
