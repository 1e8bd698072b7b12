import GraphShapes.Digest.Blake3
import GraphShapes.Encoding.Shape
import GraphShapes.Validator

/-!
# Setting up validators

A validator is made of node shapes, or of a document of node shapes, and settings. The settings
are checked once, here. The digest of the shapes is that of their compact JSON form, so a
document in another layout gives the same digest. The codec of documents and the hash of bytes may
be chosen.
-/

namespace GraphShapes

/-- The digest of node shapes. -/
def NodeShape.digest (nodes : List NodeShape) (codec : Json.Codec := .standard)
    (hash : List UInt8 → Digest := Blake3.hash) : Digest :=
  hash (codec.write (listToJson nodes)).toUTF8.toList

namespace Validator

/-- The validator of node shapes, unless the settings are unusable. -/
def ofShapes (shapes : List NodeShape) (config : Config) (codec : Json.Codec := .standard)
    (hash : List UInt8 → Digest := Blake3.hash) : Except PassError Validator :=
  match config.check with
  | .error e => .error (.config e.message)
  | .ok () => .ok ⟨shapes, config, NodeShape.digest shapes codec hash⟩

/-- The validator of a document of node shapes. -/
def ofText (text : String) (config : Config) (codec : Json.Codec := .standard)
    (hash : List UInt8 → Digest := Blake3.hash) : Except PassError Validator :=
  match (NodeShape.listOfJson? codec).ofText? text codec with
  | none => .error .unreadableShapes
  | some shapes => ofShapes shapes config codec hash

end Validator

end GraphShapes
