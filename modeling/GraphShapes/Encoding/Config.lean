import GraphShapes.Config
import GraphShapes.Encoding.Record

/-!
# Settings in JSON

A record in which every setting may be left out.
-/

namespace GraphShapes.Config

def toJson (c : Config) : Json :=
  .obj [("cache_select_nodes", .bool c.cacheSelectNodes), ("print_plans", .bool c.printPlans),
    ("validate_all", .bool c.validateAll), ("fail_fast", .bool c.failFast),
    ("max_violations_per_shape", .ofOption (c.maxViolationsPerShape.map .word))]

def fields : List Json.Field :=
  [⟨"cache_select_nodes", .defaulted⟩, ⟨"print_plans", .defaulted⟩, ⟨"validate_all", .defaulted⟩,
    ⟨"fail_fast", .defaulted⟩, ⟨"max_violations_per_shape", .defaulted⟩]

def ofJson? (codec : Json.Codec := .standard) : Decoder Config
  | 0, _ => none
  | _ + 1, v =>
    match codec.record? fields v with
    | some [cache, print, all, fast, cap] => do
      return { cacheSelectNodes := ← Json.orDefault? true codec.bool? cache
               printPlans := ← Json.orDefault? false codec.bool? print
               validateAll := ← Json.orDefault? false codec.bool? all
               failFast := ← Json.orDefault? false codec.bool? fast
               maxViolationsPerShape := ← codec.optional? codec.word? cap }
    | _ => none

end GraphShapes.Config
