import GraphShapes.Plan
import GraphShapes.PlanGraph

/-!
# Drawing plans

A plan is drawn from the leaves up, inputs from left to right. The first reader of a splitter that
is met draws the splitter, after its supply; the other readers point to it. A splitter whose
supply is already being read is drawn without it.
-/

namespace GraphShapes

namespace TargetScan

def label (scan : TargetScan) : String :=
  let mode := match scan.mode with
    | .all => "all"
    | .affected .. => "affected"
  "TargetScan(" ++ mode ++ ": " ++ ", ".intercalate (scan.targets.map Target.outline) ++ ")"

end TargetScan

namespace Plan

/-- Draws something into a graph and gives the number of its last operator. -/
abbrev Drawing := PlanGraph → PlanGraph × Nat

/-- An operator over one input. -/
def drawOver (label : String) (input : Drawing) : Drawing := fun g =>
  let (g, i) := input g
  g.operator label [i]

/-- An operator over two inputs. -/
def drawOverBoth (label : String) (left right : Drawing) : Drawing := fun g =>
  let (g, l) := left g
  let (g, r) := right g
  g.operator label [l, r]

/-- A splitter, once: after its supply, if there is one to draw. -/
def drawSplitter (splitter : SplitterId) (supply : Option Drawing) : Drawing := fun g =>
  match g.shared? splitter with
  | some n => (g, n)
  | none =>
    let (g, inputs) := match supply with
      | some draw => let (g, i) := draw g; (g, [i])
      | none => (g, [])
    let (g, n) := g.operator "BufferedSplitter" inputs
    (g.register splitter n, n)

mutual

/-- Draws a plan, given how the supplies of splitters are drawn. -/
def draw (supply : SplitterId → Option Drawing) : Plan → Drawing
  | empty _ => fun g => g.operator "Empty" []
  | values rows _ => fun g => g.operator ("Values(" ++ toString rows.length ++ ")") []
  | probe _ => fun g => g.operator "Scripted" []
  | targetScan scan => fun g => g.operator scan.label []
  | reader splitter _ => drawSplitter splitter (supply splitter)
  | valuesOf targets _ path =>
    let along := match path with
      | some p => p.display
      | none => "self"
    drawOver ("ValuesOf(" ++ along ++ ")") (targets.draw supply)
  | countValues targets vs label _ =>
    drawOverBoth ("CountValues(" ++ label ++ ")") (targets.draw supply) (vs.draw supply)
  | filter input label _ => drawOver ("Filter(" ++ label ++ ")") (input.draw supply)
  | trim input width =>
    drawOver ("TrimTuple(0.." ++ toString width ++ ")") (input.draw supply)
  | sort input => drawOver "Sort" (input.draw supply)
  | unique input width =>
    let label := match width with
      | some n => "Unique(prefix=" ++ toString n ++ ")"
      | none => "Unique"
    drawOver label (input.draw supply)
  | union inputs => fun g =>
    let (g, is) := drawAll supply inputs g
    g.operator "Union" is
  | tag input shape =>
    drawOver ("EnrichWithShape(" ++ shape.display ++ ")") (input.draw supply)
  | relabel input layout =>
    drawOver ("ShapeOverride(" ++ layout.name ++ ")") (input.draw supply)
  | equalsJoin left right allColumns =>
    drawOverBoth (if allColumns then "EqualsJoin(all columns)" else "EqualsJoin(target)")
      (left.draw supply) (right.draw supply)
  | innerJoin left right => drawOverBoth "InnerJoin" (left.draw supply) (right.draw supply)
  | antiJoin left right => drawOverBoth "AntiJoin" (left.draw supply) (right.draw supply)

def drawAll (supply : SplitterId → Option Drawing) :
    List Plan → PlanGraph → PlanGraph × List Nat
  | [], g => (g, [])
  | p :: rest, g =>
    let (g, i) := p.draw supply g
    let (g, is) := drawAll supply rest g
    (g, i :: is)

end

/-- How the supplies of the splitters below a number are drawn. Splitters are drawn from their
supply plan as long as it waits to be read (`waiting`). -/
def supplyBelow (waiting : SplitterId → Option Plan) : Nat → SplitterId → Option Drawing
  | 0, _ => none
  | n + 1, splitter => (waiting splitter).map fun u => u.draw (supplyBelow waiting n)

/-- Draws a plan among so many splitters. -/
def explain (waiting : SplitterId → Option Plan) (splitters : Nat) (p : Plan) : Drawing :=
  p.draw (supplyBelow waiting splitters)

/-- The graph of a plan among splitters that have not been read. -/
def graph (splitters : Splitters) (p : Plan) : PlanGraph :=
  (p.explain (splitters[·]?) splitters.size .empty).1

end Plan

end GraphShapes
