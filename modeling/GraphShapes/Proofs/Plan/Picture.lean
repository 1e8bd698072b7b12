import GraphShapes.Proofs.Plan.Drawing

/-!
# The graph of a plan is a picture of it

The graph of a plan has one node for every operator that the plan consists of: for every splitter
that is read, and for whatever else is found in the plan or in the supply of such a splitter. That
many readers share a splitter changes nothing about that. Its edges lead from the inputs of every
operator to the operator, and upwards in the order of the nodes, so the operator at the root has the
last node, and everything else leads there (`Plan.graph_depicts`).
-/

namespace GraphShapes

/-- The graph is a picture of the plan, in which the operators at the sites have the nodes in the
order of their numbers. -/
structure PlanGraph.Depicts (ss : Splitters) (p : Plan) (g : PlanGraph) (sites : List Site) :
    Prop where
  /-- No operator has two nodes. -/
  nodup : sites.Nodup
  /-- The operators are those that the plan consists of. -/
  mem_iff : ∀ x, x ∈ sites ↔ p.HasSite ss x
  nodes_eq : g.nodes.toList = sites.map (Site.label ss p)
  edges_eq : g.edges.toList = Site.edges ss p sites
  ascending : ∀ e ∈ g.edges, e.1 < e.2 ∧ e.2 < g.size
  /-- A splitter has one outgoing edge for every reader of it below an operator. -/
  readers : ∀ s, .splitter s ∈ sites →
    g.edges.toList.countP (fun e => e.1 = sites.idxOf (.splitter s)) =
      ((p.inputs ++ sites.filterMap (Site.supply? ss)).flatMap Plan.readSplitters).count s
  root : sites.getLast? = some (p.siteAt none [])
  reaches : ∀ n < g.size, Relation.ReflTransGen (fun c o => (c, o) ∈ g.edges) n (g.size - 1)

variable {ss : Splitters} {p : Plan} {sites : List Site} {g : PlanGraph}

namespace Drawn

/-- The edges of a drawn graph are the pairs of a site and one of its inputs. -/
theorem mem_edges (h : Drawn ss p sites g) {e : Nat × Nat} : e ∈ g.edges ↔
    ∃ o ∈ sites, ∃ c ∈ o.inputs ss p, e = (sites.idxOf c, sites.idxOf o) := by
  rw [← Array.mem_toList_iff, h.edges, Site.edges, List.mem_flatMap]
  constructor
  · rintro ⟨⟨o, n⟩, ho, he⟩
    obtain ⟨c, hc, rfl⟩ := List.mem_map.1 he
    rw [List.mk_mem_zipIdx_iff_getElem?] at ho
    obtain ⟨hn, rfl⟩ := List.getElem?_eq_some_iff.1 ho
    exact ⟨_, List.getElem_mem hn, c, hc, by rw [h.nodup.idxOf_getElem]⟩
  · rintro ⟨o, ho, c, hc, rfl⟩
    refine ⟨(o, sites.idxOf o), ?_, List.mem_map.2 ⟨c, hc, rfl⟩⟩
    rw [List.mk_mem_zipIdx_iff_getElem?]
    exact List.getElem?_idxOf ho

/-- What leads to a drawn site is drawn, and its node leads there. -/
theorem reaches_of_leadsTo (h : Drawn ss p sites g) {x root : Site} (hroot : root ∈ sites)
    (hlead : x.LeadsTo ss p root) : x ∈ sites ∧
      Relation.ReflTransGen (fun c o => (c, o) ∈ g.edges) (sites.idxOf x) (sites.idxOf root) := by
  induction hlead using Relation.ReflTransGen.head_induction_on with
  | refl => exact ⟨hroot, .refl⟩
  | head hc _ ih =>
    obtain ⟨ho, hreach⟩ := ih
    exact ⟨h.mem_of_feeds ho hc, hreach.head (h.mem_edges.2 ⟨_, ho, _, hc, rfl⟩)⟩

/-- The last site has the last number. -/
theorem idxOf_getLast (h : Drawn ss p sites g) {x : Site} (hx : sites.getLast? = some x) :
    sites.idxOf x + 1 = sites.length := by
  obtain ⟨before, rfl⟩ := List.getLast?_eq_some_iff.1 hx
  have hnodup := h.nodup
  rw [List.nodup_append] at hnodup
  have hfresh : x ∉ before := fun hmem =>
    hnodup.2.2 x hmem x (List.mem_singleton_self _) rfl
  rw [List.idxOf_append_of_notMem hfresh]
  simp

/-- Nothing is drawn behind what everything leads to. -/
theorem getLast?_eq (h : Drawn ss p sites g) {root : Site} (hroot : root ∈ sites)
    (hlead : ∀ x ∈ sites, x.LeadsTo ss p root) : sites.getLast? = some root := by
  have hne : sites ≠ [] := List.ne_nil_of_mem hroot
  have hlast := List.getLast?_eq_some_getLast hne
  rcases (hlead _ (List.getLast_mem hne)).cases_head with heq | ⟨o, hfeeds, ho⟩
  · rw [hlast, heq]
  · -- whatever has the last site as an input would come behind it
    have hmem : o ∈ sites := (h.reaches_of_leadsTo hroot ho).1
    have hlt := h.idxOf_lt hmem hfeeds
    have hbound := List.idxOf_lt_length_iff.2 hmem
    have hend := h.idxOf_getLast hlast
    omega

/-- A site has so many outgoing edges as it is an input. -/
theorem countP_edges (h : Drawn ss p sites g) {x : Site} (hx : x ∈ sites) :
    g.edges.toList.countP (fun e => e.1 = sites.idxOf x) =
      (sites.flatMap (Site.inputs ss p)).count x := by
  have hfrom : g.edges.toList.map Prod.fst =
      (sites.flatMap (Site.inputs ss p)).map sites.idxOf := by
    have hfst : ∀ o : Site × Nat,
        ((o.1.inputs ss p).map fun c => (sites.idxOf c, o.2)).map Prod.fst =
          (o.1.inputs ss p).map sites.idxOf := fun o => by rw [List.map_map]; rfl
    have hzip : (sites.zipIdx.flatMap fun o => (o.1.inputs ss p).map sites.idxOf) =
        (sites.zipIdx.map Prod.fst).flatMap fun o => (o.inputs ss p).map sites.idxOf := by
      rw [List.flatMap_map]
    rw [h.edges, Site.edges, List.map_flatMap, List.map_flatMap]
    simp only [hfst]
    rw [hzip, List.zipIdx_map_fst]
  calc g.edges.toList.countP (fun e => e.1 = sites.idxOf x)
      = (g.edges.toList.map Prod.fst).countP (fun n => n = sites.idxOf x) := by
        rw [List.countP_map]
        rfl
    _ = (sites.flatMap (Site.inputs ss p)).countP (fun c => sites.idxOf c = sites.idxOf x) := by
        rw [hfrom, List.countP_map]
        rfl
    _ = (sites.flatMap (Site.inputs ss p)).count x := by
        rw [List.count_eq_countP]
        refine List.countP_congr fun c _ => ?_
        rw [decide_eq_true_eq, beq_iff_eq, eq_comm, List.idxOf_inj hx, eq_comm]

end Drawn

namespace Plan

/-- The graph of a plan is a picture of it, however many readers share the splitters. -/
theorem graph_depicts (hlayered : ss.Layered) (hreads : ∀ s ∈ p.readSplitters, s < ss.size) :
    ∃ sites, (p.graph ss).Depicts ss p sites := by
  obtain ⟨sites, numbers, hadds⟩ := exists_adds hlayered hreads
  have hdrawn : Drawn ss p sites (p.graph ss) := hadds.drawn
  have hroot : p.siteAt none [] ∈ sites := hadds.mem _ (List.mem_singleton_self _)
  have hlead : ∀ x ∈ sites, x.LeadsTo ss p (p.siteAt none []) := by simpa using hadds.leads
  have hlast := hdrawn.getLast?_eq hroot hlead
  refine ⟨sites, ?_⟩
  constructor
  case nodup => exact hdrawn.nodup
  case nodes_eq => exact hdrawn.nodes
  case edges_eq => exact hdrawn.edges
  case root => exact hlast
  case mem_iff =>
    intro x
    rw [hasSite_iff]
    exact ⟨hlead x, fun hx => (hdrawn.reaches_of_leadsTo hroot hx).1⟩
  case ascending =>
    intro e he
    obtain ⟨o, ho, c, hc, rfl⟩ := hdrawn.mem_edges.1 he
    exact ⟨hdrawn.idxOf_lt ho hc, hdrawn.size ▸ List.idxOf_lt_length_iff.2 ho⟩
  case readers =>
    intro s hs
    -- a reader at the root stands for the splitter there, from which no edge leads on
    have huses := hadds.uses s
    rw [count_siteAt, readSplitters_eq, List.count_append] at huses
    rw [hdrawn.countP_edges hs, List.flatMap_append, List.count_append]
    exact Nat.add_right_cancel (huses.trans (by rw [Site.reads]; omega))
  case reaches =>
    intro n hn
    rw [hdrawn.size] at hn ⊢
    have hreach := (hdrawn.reaches_of_leadsTo hroot (hlead _ (List.getElem_mem hn))).2
    rw [hdrawn.nodup.idxOf_getElem] at hreach
    rwa [← hdrawn.idxOf_getLast hlast, Nat.add_sub_cancel]

/-- A splitter over two readers of another one is read twice, and the other one once more. -/
theorem graph_depicts_nested :
    let shared (s : SplitterId) : Plan := .reader s .aggregated
    let ss : Splitters := #[.values [] .aggregated, .union [shared 0, shared 0]]
    let p : Plan := .antiJoin (shared 1) (.innerJoin (shared 1) (shared 0))
    ss.Layered ∧ (∀ s ∈ p.readSplitters, s < ss.size) ∧
      (∃ sites, (p.graph ss).Depicts ss p sites) ∧
      (p.graph ss).nodes.toList =
        ["Values(0)", "BufferedSplitter", "Union", "BufferedSplitter", "InnerJoin", "AntiJoin"] ∧
      (p.graph ss).edges.toList =
        [(0, 1), (1, 2), (1, 2), (2, 3), (3, 4), (1, 4), (3, 5), (4, 5)] := by
  intro shared ss p
  have hlayered : ss.Layered := by decide
  have hreads : ∀ s ∈ p.readSplitters, s < ss.size := by decide
  exact ⟨hlayered, hreads, graph_depicts hlayered hreads, by decide, by decide⟩

end Plan

end GraphShapes
