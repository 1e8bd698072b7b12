import GraphShapes.Encoding.Config
import GraphShapes.Encoding.PlanGraph
import GraphShapes.Encoding.Report
import GraphShapes.Proofs.Encoding.Shapes
import GraphShapes.Validator.Setup

/-!
# Nothing is lost in JSON

Whatever is written in JSON is read again as it was, as long as its brackets are not nested deeper
than a text may be (`lossless`). A plan graph is read without the numbers of its shared operators,
which are not written.

The codec that writes and reads may be any that keeps its promises (`Json.Codec.Lawful`), and the
digest of shapes may be made with any hash. That no document is read as a row without a target does
not even need the promises: it is this library that refuses an empty line.
-/

namespace GraphShapes

theorem Component.ofName?_name (c : Component) : ofName? c.name = some c := by cases c <;> rfl

theorem Term.toJson_ne_null (t : Term) : t.toJson ≠ .null := by
  cases t <;> exact Json.noConfusion

/-- The numbers of operators are words of the machine. -/
def PlanGraph.Fits (g : PlanGraph) : Prop :=
  ∀ e ∈ g.edges, e.1 < UInt64.size ∧ e.2 < UInt64.size

section Lawful

variable {codec : Json.Codec} (hc : codec.Lawful)
include hc

theorem Config.reads (c : Config) : (ofJson? codec).Reads c.toJson c := by
  have hcap : (Json.ofOption (c.maxViolationsPerShape.map .word)).Plain :=
    Decoder.Reads.plain_ofOption fun w _ => .word hc w
  refine ⟨⟨trivial, trivial, trivial, trivial, hcap, trivial⟩, fun n hn => ?_⟩
  obtain ⟨m, rfl, hm⟩ := Json.depth_obj_le hn
  simp only [List.forall_mem_cons] at hm
  obtain ⟨-, -, -, -, hcapm, -⟩ := hm
  have hread : codec.optional? codec.word? (some (.ofOption (c.maxViolationsPerShape.map .word))) =
      some c.maxViolationsPerShape :=
    Decoder.Reads.optional hc (fun w _ => .word hc w) (fun _ => Json.noConfusion) hcapm
  rw [ofJson?, toJson, hc.record?_obj rfl (by decide)]
  simp [hread, Json.orDefault?, hc.bool?_bool]

namespace PlanGraph

theorem reads_edge {e : Nat × Nat} (hsource : e.1 < UInt64.size) (hreader : e.2 < UInt64.size) :
    (edgeOfJson? codec).Reads (edgeToJson e) e := by
  refine ⟨⟨trivial, trivial, trivial⟩, fun n hn => ?_⟩
  obtain ⟨m, rfl, -⟩ := Json.depth_arr_le hn
  rw [edgeOfJson?, edgeToJson, hc.items?_arr]
  simp [hc.nat?_nat hsource, hc.nat?_nat hreader]

theorem reads {g : PlanGraph} (h : g.Fits) :
    (ofJson? codec).Reads g.toJson { g with shared := [] } := by
  have hnodes : (codec.list? fun _ label => codec.str? label).Reads (.ofList .str g.nodes.toList)
      g.nodes.toList := .list hc fun label _ => .str hc label
  have hedges : (codec.list? (edgeOfJson? codec)).Reads (.ofList edgeToJson g.edges.toList)
      g.edges.toList := by
    apply Decoder.Reads.list hc
    intro e he
    obtain ⟨hsource, hreader⟩ := h e (Array.mem_toList_iff.1 he)
    exact reads_edge hc hsource hreader
  refine ⟨⟨hnodes.plain, hedges.plain, trivial⟩, fun n hn => ?_⟩
  obtain ⟨m, rfl, hm⟩ := Json.depth_obj_le hn
  simp only [List.forall_mem_cons] at hm
  obtain ⟨hnodesm, hedgesm, -⟩ := hm
  rw [ofJson?, toJson, hc.record?_obj rfl (by decide)]
  simp [hnodes.decodes m hnodesm, hedges.decodes m hedgesm]

end PlanGraph

theorem Component.reads (c : Component) : (ofJson? codec).Reads c.toJson c :=
  .name hc c.ofName?_name

theorem Violation.reads (v : Violation) : (ofJson? codec).Reads v.toJson v := by
  have hfocus := v.focus.reads hc
  have hvalue : (Json.ofOption (v.value.map Term.toJson)).Plain :=
    Decoder.Reads.plain_ofOption fun t _ => t.reads hc
  have hprovenance : (Json.ofOption (v.provenance.map Statement.toJson)).Plain :=
    Decoder.Reads.plain_ofOption fun st _ => st.reads hc
  have htrace : (codec.list? (ShapeId.ofJson? codec)).Reads (.ofList ShapeId.toJson v.trace)
      v.trace := .list hc fun id _ => id.reads hc
  refine ⟨⟨hfocus.plain, hvalue, hprovenance, trivial, trivial, trivial, trivial, htrace.plain,
    trivial⟩, fun n hn => ?_⟩
  obtain ⟨m, rfl, hm⟩ := Json.depth_obj_le hn
  simp only [List.forall_mem_cons] at hm
  obtain ⟨hfocusm, hvaluem, hprovenancem, hscopem, hnodem, hsourcem, hcomponentm, htracem, -⟩ := hm
  -- a value that is left out is written as null, which no term is
  have hvalue : codec.optional? (Term.ofJson? codec m)
      (some (.ofOption (v.value.map Term.toJson))) = some v.value :=
    Decoder.Reads.optional hc (fun t _ => t.reads hc) Term.toJson_ne_null hvaluem
  have hprovenance : codec.optional? (Statement.ofJson? codec m)
      (some (.ofOption (v.provenance.map Statement.toJson))) = some v.provenance :=
    Decoder.Reads.optional hc (fun st _ => st.reads hc) (fun _ => Json.noConfusion) hprovenancem
  rw [ofJson?, toJson, hc.record?_obj rfl (by decide)]
  simp [hfocus.decodes m hfocusm, hvalue, hprovenance, (v.scope.reads hc).decodes m hscopem,
    (v.nodeShape.reads hc).decodes m hnodem, (v.sourceShape.reads hc).decodes m hsourcem,
    (v.component.reads hc).decodes m hcomponentm, htrace.decodes m htracem]

end Lawful

/-! ## Texts -/

/-- The text of a value is read as that value, if its brackets are not nested too deep. -/
def Json.Codec.Restores {α : Type} (codec : Codec) (decode : Decoder α) (v : Json) (a : α) : Prop :=
  v.depth ≤ Json.nestingLimit → decode.ofText? (codec.write v) codec = some a

/-- A document that is read as a row lists the columns of the row, and there is one at least. -/
theorem Row.line_of_ofText {codec : Json.Codec} {text : String} {row : Row}
    (h : (ofJson? codec).ofText? text codec = some row) :
    ∃ v line others nesting, codec.read? text = some v ∧ codec.nestingLimit = nesting + 1 ∧
      codec.record? fields v = some (some line :: others) ∧
        codec.list? (Term.ofJson? codec) nesting line = some row.line ∧ row.line ≠ [] := by
  obtain ⟨v, hv, hrow⟩ := Option.bind_eq_some_iff.1 h
  cases hlimit : codec.nestingLimit with
  | zero =>
    rw [hlimit] at hrow
    cases hrow
  | succ nesting =>
    rw [hlimit, ofJson?] at hrow
    split at hrow
    · rename_i line scope trace hrecord
      obtain ⟨terms, hterms, hrow⟩ := Option.bind_eq_some_iff.1 hrow
      obtain ⟨bare, hbare, hrow⟩ := Option.bind_eq_some_iff.1 hrow
      obtain ⟨scope', -, hrow⟩ := Option.bind_eq_some_iff.1 hrow
      obtain ⟨trace', -, hrow⟩ := Option.bind_eq_some_iff.1 hrow
      obtain rfl := Option.some.inj hrow
      -- a line without terms is refused here
      cases terms with
      | nil => cases hbare
      | cons target rest =>
        obtain rfl := Option.some.inj hbare
        exact ⟨v, line, [scope, trace], nesting, hv, rfl, hrecord, hterms, List.cons_ne_nil _ _⟩
    · cases hrow

/-- What is written with a codec is read with it as it was. -/
structure Lossless (codec : Json.Codec) (hash : List UInt8 → Digest) : Prop where
  term : ∀ t : Term, codec.Restores (Term.ofJson? codec) t.toJson t
  statement : ∀ st : Statement, codec.Restores (Statement.ofJson? codec) st.toJson st
  row : ∀ r : Row, codec.Restores (Row.ofJson? codec) r.toJson r
  path : ∀ p : Path, codec.Restores (Path.ofJson? codec) p.toJson p
  target : ∀ t : Target, codec.Restores (Target.ofJson? codec) t.toJson t
  constraint : ∀ c : Constraint, codec.Restores (Constraint.ofJson? codec) c.toJson c
  shape : ∀ s : Shape, codec.Restores (Shape.ofJson? codec) s.toJson s
  nodeShapes : ∀ nodes : List NodeShape,
    codec.Restores (NodeShape.listOfJson? codec) (NodeShape.listToJson nodes) nodes
  store : ∀ s : Store, codec.Restores (Store.ofJson? codec) s.toJson s
  config : ∀ c : Config, codec.Restores (Config.ofJson? codec) c.toJson c
  /-- The numbers of shared operators are not written. -/
  planGraph : ∀ g : PlanGraph, g.Fits →
    codec.Restores (PlanGraph.ofJson? codec) g.toJson { g with shared := [] }
  violation : ∀ v : Violation, codec.Restores (Violation.ofJson? codec) v.toJson v
  /-- A validator of a document is the one of the shapes that the document was made of, with the same
  digest. -/
  validator : ∀ (nodes : List NodeShape) (config : Config),
    (NodeShape.listToJson nodes).depth ≤ Json.nestingLimit →
      Validator.ofText (codec.write (NodeShape.listToJson nodes)) config codec hash =
        Validator.ofShapes nodes config codec hash
  /-- No document is read as a row unless it lists a target column. -/
  targetColumn : ∀ (text : String) (r : Row), (Row.ofJson? codec).ofText? text codec = some r →
    ∃ v line others nesting, codec.read? text = some v ∧ codec.nestingLimit = nesting + 1 ∧
      codec.record? Row.fields v = some (some line :: others) ∧
        codec.list? (Term.ofJson? codec) nesting line = some r.line ∧ r.line ≠ []

theorem lossless {codec : Json.Codec} (hc : codec.Lawful) (hash : List UInt8 → Digest) :
    Lossless codec hash where
  term t := (t.reads hc).ofText hc
  statement st := (st.reads hc).ofText hc
  row r := (r.reads hc).ofText hc
  path p := (p.reads hc).ofText hc
  target t := (t.reads hc).ofText hc
  constraint c := (c.reads hc).ofText hc
  shape s := (s.reads hc).ofText hc
  nodeShapes nodes := (NodeShape.reads_list hc nodes).ofText hc
  store s := (s.reads hc).ofText hc
  config c := (c.reads hc).ofText hc
  planGraph _ h := (PlanGraph.reads hc h).ofText hc
  violation v := (v.reads hc).ofText hc
  validator nodes config hdepth := by
    rw [Validator.ofText, (NodeShape.reads_list hc nodes).ofText hc hdepth]
  targetColumn _ _ := Row.line_of_ofText

/-- With the standard codec and hash: a shape whose members set paths of their own and allow quoted
statements, texts with escapes and numbers at the edges, written and read again. -/
theorem lossless_standard :
    let edges : List Term :=
      [.int Int64.minValue, .str "a\"\n\\", .triple (.iri "s") (.blank "b") (.bool true)]
    let allowed : Shape :=
      .constraint { id := ⟨2⟩, path := some (.inverse (.iri "p")) } (.oneOf edges)
    let bounded : Shape :=
      .constraint { id := ⟨3⟩, deactivated := true } (.maxCount 18446744073709551615)
    let choice : Shape := .disj { id := ⟨1⟩ } [[allowed, .neg { id := ⟨4⟩ } bounded]]
    let node : NodeShape := { id := ⟨0⟩, targets := [.nodes edges], shapes := [choice] }
    Json.Codec.standard.Lawful ∧ (NodeShape.listToJson [node]).depth ≤ Json.nestingLimit ∧
      Decoder.ofText? NodeShape.listOfJson? (NodeShape.listToJson [node]).compact = some [node] ∧
      Validator.ofText (NodeShape.listToJson [node]).compact {} = Validator.ofShapes [node] {} := by
  intro edges allowed bounded choice node
  have hdepth : (NodeShape.listToJson [node]).depth ≤ Json.nestingLimit := by decide
  have h := lossless Json.Codec.standard_lawful Blake3.hash
  exact ⟨Json.Codec.standard_lawful, hdepth, h.nodeShapes [node] hdepth, h.validator [node] {} hdepth⟩

/-- A row of no columns is refused. -/
example : (Decoder.ofText? Row.ofJson? "\x7b\"line\":[]\x7d").isNone = true := by decide +kernel

end GraphShapes
