import GraphShapes.Encoding.Row
import GraphShapes.Report

/-!
# Reports in JSON

Violations, manifests and whole reports as records.
-/

namespace GraphShapes

namespace Digest

/-- The digest in JSON: the list of its bytes. -/
def toJson (d : Digest) : Json := .ofList (fun b => .nat b.toNat) d.bytes.toList

/-- The digest of a list of bytes. -/
def ofBytes? (bytes : List UInt8) : Option Digest :=
  if h : bytes.length = 32 then some ⟨⟨bytes.toArray, by simpa using h⟩⟩ else none

def ofJson? (codec : Json.Codec := .standard) : Decoder Digest := fun nesting v =>
  (codec.list? (fun _ byte => codec.byte? byte) nesting v).bind ofBytes?

end Digest

def Uuid.toJson (u : Uuid) : Json := .str u.display

def Uuid.ofJson? (codec : Json.Codec := .standard) : Decoder Uuid := fun _ v =>
  (codec.str? v).bind ofText?

namespace Component

def toJson (c : Component) : Json := .str c.name

def ofName? (name : String) : Option Component := all.find? fun c => c.name = name

def ofJson? (codec : Json.Codec := .standard) : Decoder Component := fun nesting v =>
  (codec.name? nesting v).bind ofName?

end Component

namespace Manifest

/-- The members of a manifest behind its identifier. -/
def membersToJson (m : Manifest) : List (String × Json) :=
  [("shapes_hash", m.shapesHash.toJson), ("engine_version", .str m.engineVersion),
    ("shapes_evaluated", .nat m.evaluated), ("shapes_skipped", .nat m.skipped),
    ("violations", .nat m.violations), ("started_ms", .word m.startedMs),
    ("finished_ms", .word m.finishedMs)]

def toJson (m : Manifest) : Json := .obj (("id", m.id.toJson) :: m.membersToJson)

def fields : List Json.Field :=
  [⟨"id", .required⟩, ⟨"shapes_hash", .required⟩, ⟨"engine_version", .required⟩,
    ⟨"shapes_evaluated", .required⟩, ⟨"shapes_skipped", .required⟩, ⟨"violations", .required⟩,
    ⟨"started_ms", .required⟩, ⟨"finished_ms", .required⟩]

def ofJson? (codec : Json.Codec := .standard) : Decoder Manifest
  | 0, _ => none
  | nesting + 1, v =>
    match codec.record? fields v with
    | some [some id, some hash, some version, some evaluated, some skipped, some violations,
        some started, some finished] => do
      return { id := ← Uuid.ofJson? codec nesting id
               shapesHash := ← Digest.ofJson? codec nesting hash
               engineVersion := ← codec.str? version
               evaluated := ← codec.nat? evaluated
               skipped := ← codec.nat? skipped
               violations := ← codec.nat? violations
               startedMs := ← codec.word? started
               finishedMs := ← finished.word? }
    | _ => none

end Manifest

namespace Violation

def toJson (v : Violation) : Json :=
  .obj [("focus", v.focus.toJson), ("value", .ofOption (v.value.map Term.toJson)),
    ("provenance", .ofOption (v.provenance.map Statement.toJson)), ("scope", v.scope.toJson),
    ("node_shape", v.nodeShape.toJson), ("source_shape", v.sourceShape.toJson),
    ("component", v.component.toJson), ("trace", .ofList ShapeId.toJson v.trace)]

def fields : List Json.Field :=
  [⟨"focus", .required⟩, ⟨"value", .optional⟩, ⟨"provenance", .optional⟩, ⟨"scope", .required⟩,
    ⟨"node_shape", .required⟩, ⟨"source_shape", .required⟩, ⟨"component", .required⟩,
    ⟨"trace", .required⟩]

def ofJson? (codec : Json.Codec := .standard) : Decoder Violation
  | 0, _ => none
  | nesting + 1, v =>
    match codec.record? fields v with
    | some [some focus, value, provenance, some scope, some node, some source, some component,
        some trace] => do
      return { focus := ← Term.ofJson? codec nesting focus
               value := ← codec.optional? (Term.ofJson? codec nesting) value
               provenance := ← codec.optional? (Statement.ofJson? codec nesting) provenance
               scope := ← Scope.ofJson? codec nesting scope
               nodeShape := ← ShapeId.ofJson? codec nesting node
               sourceShape := ← ShapeId.ofJson? codec nesting source
               component := ← Component.ofJson? codec nesting component
               trace := ← codec.list? (ShapeId.ofJson? codec) nesting trace }
    | _ => none

end Violation

namespace Report

def toJson (r : Report) : Json :=
  .obj [("violations", .ofList Violation.toJson r.violations),
    ("truncated", .ofList ShapeId.toJson r.truncated), ("manifest", r.manifest.toJson)]

def fields : List Json.Field :=
  [⟨"violations", .required⟩, ⟨"truncated", .required⟩, ⟨"manifest", .required⟩]

def ofJson? (codec : Json.Codec := .standard) : Decoder Report
  | 0, _ => none
  | nesting + 1, v =>
    match codec.record? fields v with
    | some [some violations, some truncated, some manifest] => do
      return { violations := ← codec.list? (Violation.ofJson? codec) nesting violations
               truncated := ← codec.list? (ShapeId.ofJson? codec) nesting truncated
               manifest := ← Manifest.ofJson? codec nesting manifest }
    | _ => none

end Report

end GraphShapes
