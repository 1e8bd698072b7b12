import GraphShapes.Text.Hex

/-!
# Digests

A digest is a fixed-size fingerprint of 32 bytes, shown as 64 hexadecimal digits.
-/

namespace GraphShapes

/-- A fingerprint of 32 bytes. -/
structure Digest where
  bytes : Vector UInt8 32
deriving DecidableEq

namespace Digest

/-- The digest whose bytes are all the same. -/
def fill (byte : UInt8) : Digest := ⟨Vector.replicate 32 byte⟩

def hex (d : Digest) : String :=
  String.ofList (d.bytes.toList.flatMap fun b => Text.Hex.byte b.toNat)

end Digest

end GraphShapes
