/-!
# Shape identifiers

Results point back at the shapes that produced them by number.
-/

namespace GraphShapes

/-- The number under which a shape is known. -/
structure ShapeId where
  value : UInt64
deriving DecidableEq

namespace ShapeId

/-- The order of identifiers is the order of their numbers. -/
def compare (a b : ShapeId) : Ordering := Ord.compare a.value b.value

/-- The identifier in labels and messages. -/
def display (id : ShapeId) : String := "shape#" ++ toString id.value

end ShapeId

end GraphShapes
