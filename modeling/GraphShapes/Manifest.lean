import GraphShapes.Digest
import GraphShapes.Uuid

/-!
# Manifests of validation passes

A manifest records which shapes a pass worked with, by their digest, and how many of them were
looked at, so that two passes over the same data can be compared without their reports.
-/

namespace GraphShapes

/-- The version that every manifest names. -/
def engineVersion : String := "0.1.0"

/-- The record of one pass. -/
structure Manifest where
  id : Uuid
  shapesHash : Digest
  engineVersion : String
  /-- How many shapes were planned and read. -/
  evaluated : Nat := 0
  /-- How many shapes were passed over. -/
  skipped : Nat := 0
  /-- How many violations were found. -/
  violations : Nat := 0
  /-- When the pass began, in milliseconds. -/
  startedMs : UInt64
  /-- When the pass ended, in milliseconds. -/
  finishedMs : UInt64
deriving DecidableEq

namespace Manifest

/-- The record of a pass that begins. -/
def start (id : Uuid) (shapesHash : Digest) (startedMs : UInt64) : Manifest where
  id := id
  shapesHash := shapesHash
  engineVersion := GraphShapes.engineVersion
  startedMs := startedMs
  finishedMs := startedMs

/-- The record of the pass at its end, which is never before its beginning. -/
def finish (m : Manifest) (finishedMs : UInt64) : Manifest :=
  { m with finishedMs := max finishedMs m.startedMs }

end Manifest

end GraphShapes
