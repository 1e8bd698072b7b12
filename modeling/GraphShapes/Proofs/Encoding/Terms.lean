import GraphShapes.Encoding.Row
import GraphShapes.Proofs.Encoding.Reads
import GraphShapes.Proofs.Store.Scan

/-!
# Reading terms and what is made of them

A term is read along its quotations: a quoted statement is read if its three positions are. Stores
and rows are read as the lists of statements and of terms that they are written as. All of this
holds with any codec that keeps its promises.
-/

namespace GraphShapes

theorem TermKind.ofName?_name (k : TermKind) : ofName? k.name = some k := by cases k <;> rfl

theorem Scope.ofName?_name (s : Scope) : ofName? s.name = some s := by cases s <;> rfl

/-- The terms of a line make up the row that they were the line of, but for what a line does not
tell. -/
theorem Row.ofLine?_line (row : Row) :
    ofLine? row.line = some ⟨row.target, row.others, .base, []⟩ :=
  rfl

/-- A store is the store of its own statements. -/
theorem Store.ofList_toList (s : Store) : ofList s.toList = s :=
  eq_of_mem_iff fun _ => mem_ofList

variable {codec : Json.Codec} (hc : codec.Lawful)
include hc

theorem TermKind.reads (k : TermKind) : (ofJson? codec).Reads k.toJson k := .name hc k.ofName?_name

theorem Scope.reads (s : Scope) : (ofJson? codec).Reads s.toJson s := .name hc s.ofName?_name

theorem ShapeId.reads (id : ShapeId) : (ofJson? codec).Reads id.toJson id :=
  (Decoder.Reads.word hc id.value).map _

/-- A statement is read if its positions are. -/
theorem Statement.reads_record {s p o : Term} (hs : Decoder.Reads (Term.ofJson? codec) s.toJson s)
    (hp : Decoder.Reads (Term.ofJson? codec) p.toJson p)
    (ho : Decoder.Reads (Term.ofJson? codec) o.toJson o) :
    Decoder.Reads (Statement.ofJson? codec) (record s.toJson p.toJson o.toJson) ⟨s, p, o⟩ := by
  refine ⟨⟨hs.plain, hp.plain, ho.plain, trivial⟩, fun n hn => ?_⟩
  obtain ⟨m, rfl, hm⟩ := Json.depth_obj_le hn
  simp only [List.forall_mem_cons] at hm
  obtain ⟨hsm, hpm, hom, -⟩ := hm
  rw [Statement.ofJson?, record, hc.record?_obj rfl (by decide)]
  simp [hs.decodes m hsm, hp.decodes m hpm, ho.decodes m hom]

theorem Term.reads : ∀ t : Term, Decoder.Reads (Term.ofJson? codec) t.toJson t
  | iri name => .ofCase hc (.str hc name) fun _ _ h => by rw [ofJson?, h]; rfl
  | blank label => .ofCase hc (.str hc label) fun _ _ h => by rw [ofJson?, h]; rfl
  | str text => .ofCase hc (.str hc text) fun _ _ h => by rw [ofJson?, h]; rfl
  | int value => .ofCase hc (.int64 hc value) fun _ _ h => by rw [ofJson?, h]; rfl
  | bool value => .ofCase hc (.bool hc value) fun _ _ h => by rw [ofJson?, h]; rfl
  | triple s p o =>
    .ofCase (f := Statement.quoted) hc (Statement.reads_record hc s.reads p.reads o.reads)
      fun _ _ h => by rw [ofJson?, h]; rfl

theorem Statement.reads (st : Statement) :
    Decoder.Reads (Statement.ofJson? codec) st.toJson st :=
  reads_record hc (st.subject.reads hc) (st.predicate.reads hc) (st.object.reads hc)

theorem Store.reads (s : Store) : (ofJson? codec).Reads s.toJson s := by
  have h := (Decoder.Reads.list hc fun st (_ : st ∈ s.toList) => st.reads hc).map ofList
  rw [s.ofList_toList] at h
  exact h

theorem Row.reads (row : Row) : (ofJson? codec).Reads row.toJson row := by
  have hline : (codec.list? (Term.ofJson? codec)).Reads (.ofList Term.toJson row.line) row.line :=
    .list hc fun t _ => t.reads hc
  have htrace : (codec.list? (ShapeId.ofJson? codec)).Reads (.ofList ShapeId.toJson row.trace)
      row.trace := .list hc fun id _ => id.reads hc
  have hscope := row.scope.reads hc
  refine ⟨⟨hline.plain, hscope.plain, htrace.plain, trivial⟩, fun n hn => ?_⟩
  obtain ⟨m, rfl, hm⟩ := Json.depth_obj_le hn
  simp only [List.forall_mem_cons] at hm
  obtain ⟨hlinem, hscopem, htracem, -⟩ := hm
  rw [ofJson?, toJson, hc.record?_obj rfl (by decide)]
  simp [hline.decodes m hlinem, hscope.decodes m hscopem, htrace.decodes m htracem,
    Json.orDefault?, ofLine?_line]

end GraphShapes
