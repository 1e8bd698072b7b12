import GraphShapes.Encoding.Shape
import GraphShapes.Proofs.Encoding.Terms
import GraphShapes.Proofs.Shape.Tree

/-!
# Reading shapes

A shape is read along the tree that it is (`Shape.tree_induction`): each combinator reads its
members, and each shape its head besides.
-/

namespace GraphShapes

theorem Path.toJson_ne_null (p : Path) : p.toJson ≠ .null := by
  cases p <;> exact Json.noConfusion

namespace Shape

theorem listOfJson?_eq (codec : Json.Codec) :
    listOfJson? codec = codec.list? (ofJson? codec) := by
  funext n v
  cases n <;> rfl

theorem branchesOfJson?_eq (codec : Json.Codec) :
    branchesOfJson? codec = codec.list? (listOfJson? codec) := by
  funext n v
  cases n <;> rfl

theorem listToJson_eq (ss : List Shape) : listToJson ss = ss.map toJson := by
  induction ss with
  | nil => rfl
  | cons s rest ih => rw [listToJson, ih, List.map_cons]

theorem branchesToJson_eq (bs : List (List Shape)) :
    branchesToJson bs = bs.map (Json.ofList toJson) := by
  induction bs with
  | nil => rfl
  | cons b rest ih =>
    rw [branchesToJson, ih, listToJson_eq, List.map_cons]
    rfl

end Shape

variable {codec : Json.Codec} (hc : codec.Lawful)
include hc

theorem Path.reads : ∀ p : Path, (ofJson? codec).Reads p.toJson p
  | predicate p => .ofCase hc (p.reads hc) fun _ _ h => by rw [ofJson?, h]; rfl
  | inverse p => .ofCase hc (p.reads hc) fun _ _ h => by rw [ofJson?, h]; rfl

theorem reads_terms (terms : List Term) :
    (codec.list? (Term.ofJson? codec)).Reads (.ofList Term.toJson terms) terms :=
  .list hc fun t _ => t.reads hc

theorem Target.reads : ∀ t : Target, (ofJson? codec).Reads t.toJson t
  | instancesOf c => .ofCase hc (c.reads hc) fun _ _ h => by rw [ofJson?, h]; rfl
  | nodes listed => .ofCase hc (reads_terms hc listed) fun _ _ h => by rw [ofJson?, h]; rfl
  | subjectsOf p => .ofCase hc (p.reads hc) fun _ _ h => by rw [ofJson?, h]; rfl
  | objectsOf p => .ofCase hc (p.reads hc) fun _ _ h => by rw [ofJson?, h]; rfl

theorem Constraint.reads : ∀ c : Constraint, (ofJson? codec).Reads c.toJson c
  | datatype kind => .ofCase hc (kind.reads hc) fun _ _ h => by rw [ofJson?, h]; rfl
  | oneOf allowed => .ofCase hc (reads_terms hc allowed) fun _ _ h => by rw [ofJson?, h]; rfl
  | hasValue wanted => .ofCase hc (wanted.reads hc) fun _ _ h => by rw [ofJson?, h]; rfl
  | minCount bound => .ofCase hc (.word hc bound) fun _ _ h => by rw [ofJson?, h]; rfl
  | maxCount bound => .ofCase hc (.word hc bound) fun _ _ h => by rw [ofJson?, h]; rfl

namespace Shape

/-- A shape is read if its kind is. -/
theorem reads_record {h : ShapeHead} {kind : Json} {s : Shape}
    (hkind : Decoder.Reads (kindOfJson? codec h) kind s) :
    Decoder.Reads (ofJson? codec) (record h kind) s := by
  have hpath : (Path.optionToJson h.path).Plain :=
    Decoder.Reads.plain_ofOption fun p _ => p.reads hc
  have hid := h.id.reads hc
  refine ⟨⟨hid.plain, trivial, hpath, hkind.plain, trivial⟩, fun n hn => ?_⟩
  obtain ⟨m, rfl, hm⟩ := Json.depth_obj_le hn
  simp only [List.forall_mem_cons] at hm
  obtain ⟨hidm, -, hpathm, hkindm, -⟩ := hm
  have hread : codec.optional? (Path.ofJson? codec m) (some (Path.optionToJson h.path)) =
      some h.path :=
    Decoder.Reads.optional hc (fun p _ => p.reads hc) Path.toJson_ne_null hpathm
  rw [ofJson?, record, hc.record?_obj rfl (by decide)]
  simp [hid.decodes m hidm, hread, hkind.decodes m hkindm, hc.bool?_bool]

/-- Shapes are read as a list of shapes if each of them is read. -/
theorem reads_list {ss : List Shape}
    (h : ∀ s ∈ ss, Decoder.Reads (ofJson? codec) s.toJson s) :
    Decoder.Reads (listOfJson? codec) (.ofList toJson ss) ss := by
  rw [listOfJson?_eq]
  exact .list hc h

/-- Each combinator reads its members, and each shape its head besides. -/
theorem reads (s : Shape) : Decoder.Reads (ofJson? codec) s.toJson s := by
  induction s using tree_induction with
  | constraint h c =>
    refine reads_record hc (.ofCase (f := constraint h) hc (c.reads hc) fun _ _ hcase => ?_)
    rw [kindOfJson?, hcase]
    rfl
  | conj h members ih =>
    rw [toJson, listToJson_eq]
    refine reads_record hc (.ofCase (f := conj h) hc (reads_list hc ih) fun _ _ hcase => ?_)
    rw [kindOfJson?, hcase]
    rfl
  | disj h branches ih =>
    have hbranches :
        Decoder.Reads (branchesOfJson? codec) (.ofList (.ofList toJson) branches) branches := by
      rw [branchesOfJson?_eq]
      exact .list hc fun b hb => reads_list hc (ih b hb)
    rw [toJson, branchesToJson_eq]
    refine reads_record hc (.ofCase (f := disj h) hc hbranches fun _ _ hcase => ?_)
    rw [kindOfJson?, hcase]
    rfl
  | neg h inner ih =>
    refine reads_record hc (.ofCase (f := neg h) hc ih fun _ _ hcase => ?_)
    rw [kindOfJson?, hcase]
    rfl

end Shape

namespace NodeShape

theorem reads (node : NodeShape) : (ofJson? codec).Reads node.toJson node := by
  have hid := node.id.reads hc
  have htargets : (codec.list? (Target.ofJson? codec)).Reads (.ofList Target.toJson node.targets)
      node.targets := .list hc fun t _ => t.reads hc
  have hshapes : Decoder.Reads (Shape.listOfJson? codec) (.ofList Shape.toJson node.shapes)
      node.shapes := Shape.reads_list hc fun s _ => s.reads hc
  refine ⟨⟨hid.plain, htargets.plain, trivial, hshapes.plain, trivial⟩, fun n hn => ?_⟩
  obtain ⟨m, rfl, hm⟩ := Json.depth_obj_le hn
  simp only [List.forall_mem_cons] at hm
  obtain ⟨hidm, htargetsm, -, hshapesm, -⟩ := hm
  rw [ofJson?, toJson, hc.record?_obj rfl (by decide)]
  simp [hid.decodes m hidm, htargets.decodes m htargetsm, hshapes.decodes m hshapesm,
    hc.bool?_bool]

/-- A document of shapes is read as the shapes that it was made of. -/
theorem reads_list (nodes : List NodeShape) :
    (listOfJson? codec).Reads (listToJson nodes) nodes := .list hc fun node _ => node.reads hc

end NodeShape

end GraphShapes
