import GraphShapes.Proofs.Plan.Sites
import Mathlib.Data.List.Basic
import Mathlib.Data.List.Nodup

/-!
# Graphs that are drawn site by site

A graph is `Drawn` of a list of sites if it comes from the empty graph by drawing these sites, one
after the other, each of them once and after the sites that it gets its rows from. This is all that
drawing a plan does. What it makes of the graph follows step by step: the sites are the nodes in the
order of their numbers (`Drawn.nodes`), the edges are those from the inputs of every site to the
site (`Drawn.edges`), and `shared` knows the splitters (`Drawn.shared?_eq`).
-/

namespace GraphShapes

variable (ss : Splitters) (p : Plan)

/-- The graph with one more site, whose inputs are the given sites by number. -/
def PlanGraph.site (g : PlanGraph) (sites : List Site) (x : Site) : PlanGraph :=
  let drawn := (g.operator (x.label ss p) ((x.inputs ss p).map sites.idxOf)).1
  match x with
  | .splitter s => drawn.register s g.size
  | .operator .. => drawn

/-- The graph comes from drawing the sites, in this order. -/
inductive Drawn : List Site → PlanGraph → Prop where
  | empty : Drawn [] .empty
  | site {sites : List Site} {g : PlanGraph} {x : Site} (h : Drawn sites g) (hnew : x ∉ sites)
      (hinputs : ∀ c ∈ x.inputs ss p, c ∈ sites) : Drawn (sites ++ [x]) (g.site ss p sites x)

/-- Site by site, the edges from its inputs to it, from left to right, with the numbers of both. -/
def Site.edges (sites : List Site) : List (Nat × Nat) :=
  sites.zipIdx.flatMap fun (x, n) => (x.inputs ss p).map fun c => (sites.idxOf c, n)

variable {ss : Splitters} {p : Plan} {sites : List Site} {g : PlanGraph} {x : Site}

/-- No number changes when a site is added behind the others. -/
theorem Site.edges_append (hold : ∀ o ∈ sites, ∀ c ∈ o.inputs ss p, c ∈ sites)
    (hnew : ∀ c ∈ x.inputs ss p, c ∈ sites) : Site.edges ss p (sites ++ [x]) =
      Site.edges ss p sites ++ (x.inputs ss p).map fun c => (sites.idxOf c, sites.length) := by
  have hnumber : ∀ {o : Site} {n : Nat}, (∀ c ∈ o.inputs ss p, c ∈ sites) →
      (o.inputs ss p).map (fun c => ((sites ++ [x]).idxOf c, n)) =
        (o.inputs ss p).map fun c => (sites.idxOf c, n) := fun hmem =>
    List.map_congr_left fun c hc => by rw [List.idxOf_append_of_mem (hmem c hc)]
  have hbefore : (sites.zipIdx.flatMap fun (o, n) =>
      (o.inputs ss p).map fun c => ((sites ++ [x]).idxOf c, n)) = Site.edges ss p sites :=
    List.flatMap_congr fun o ho => hnumber (hold o.1 (List.fst_mem_of_mem_zipIdx ho))
  unfold Site.edges at hbefore ⊢
  rw [List.zipIdx_append, List.flatMap_append, hbefore, Nat.zero_add, List.zipIdx_singleton,
    List.flatMap_singleton]
  exact congrArg (_ ++ ·) (hnumber hnew)

namespace PlanGraph

theorem nodes_site : (g.site ss p sites x).nodes = g.nodes.push (x.label ss p) := by
  cases x <;> rfl

theorem edges_site : (g.site ss p sites x).edges =
    g.edges ++ ((x.inputs ss p).map sites.idxOf).map (·, g.size) := by
  cases x <;> rfl

end PlanGraph

namespace Drawn

theorem nodup (h : Drawn ss p sites g) : sites.Nodup := by
  induction h with
  | empty => exact List.nodup_nil
  | site _ hnew _ ih => exact List.Nodup.append ih (List.nodup_singleton _) (by simpa using hnew)

/-- The nodes are the sites. -/
theorem nodes (h : Drawn ss p sites g) : g.nodes.toList = sites.map (Site.label ss p) := by
  induction h with
  | empty => rfl
  | site _ _ _ ih =>
    rw [PlanGraph.nodes_site, Array.toList_push, ih, List.map_append]
    rfl

theorem size (h : Drawn ss p sites g) : g.size = sites.length := by
  rw [PlanGraph.size, ← Array.length_toList, h.nodes, List.length_map]

/-- Inputs are drawn before the site that they are inputs of. -/
theorem idxOf_lt (h : Drawn ss p sites g) {o : Site} (ho : o ∈ sites) {c : Site}
    (hc : c ∈ o.inputs ss p) : sites.idxOf c < sites.idxOf o := by
  induction h with
  | empty => cases ho
  | @site sites g x _ hnew hinputs ih =>
    by_cases hmem : o ∈ sites
    · have hlt := ih hmem
      have hcmem : c ∈ sites :=
        List.idxOf_lt_length_iff.1 (Nat.lt_trans hlt (List.idxOf_lt_length_iff.2 hmem))
      rwa [List.idxOf_append_of_mem hcmem, List.idxOf_append_of_mem hmem]
    · -- the new site stands behind all others, and its inputs are among them
      obtain rfl := List.mem_singleton.1 ((List.mem_append.1 ho).resolve_left hmem)
      rw [List.idxOf_append_of_mem (hinputs c hc), List.idxOf_append_of_notMem hnew]
      exact Nat.lt_add_right _ (List.idxOf_lt_length_iff.2 (hinputs c hc))

/-- Inputs of a site are drawn. -/
theorem mem_of_feeds (h : Drawn ss p sites g) {o : Site} (ho : o ∈ sites) {c : Site}
    (hc : c ∈ o.inputs ss p) : c ∈ sites :=
  List.idxOf_lt_length_iff.1 (Nat.lt_trans (h.idxOf_lt ho hc) (List.idxOf_lt_length_iff.2 ho))

/-- The edges are those from the inputs of the sites to the sites. -/
theorem edges (h : Drawn ss p sites g) : g.edges.toList = Site.edges ss p sites := by
  induction h with
  | empty => rfl
  | @site sites g x h _ hinputs ih =>
    rw [PlanGraph.edges_site, Array.toList_appendList, ih, h.size, List.map_map,
      Site.edges_append (fun o ho c hc => h.mem_of_feeds ho hc) hinputs]
    rfl

/-- Where a splitter stands does not change when another site is added. -/
theorem number?_append {s : SplitterId} (hne : x ≠ .splitter s) :
    (if .splitter s ∈ sites ++ [x] then some ((sites ++ [x]).idxOf (.splitter s)) else none) =
      if .splitter s ∈ sites then some (sites.idxOf (.splitter s)) else none := by
  have hmem : Site.splitter s ∈ sites ++ [x] ↔ .splitter s ∈ sites := by simp [hne.symm]
  by_cases hs : Site.splitter s ∈ sites
  · rw [if_pos (hmem.2 hs), if_pos hs, List.idxOf_append_of_mem hs]
  · rw [if_neg (mt hmem.1 hs), if_neg hs]

/-- The splitters that are drawn are known by their numbers. -/
theorem shared?_eq (h : Drawn ss p sites g) (s : SplitterId) :
    g.shared? s = if .splitter s ∈ sites then some (sites.idxOf (.splitter s)) else none := by
  induction h with
  | empty => rfl
  | @site sites g x h hnew _ ih =>
    cases x with
    | operator tree path =>
      rw [number?_append (show Site.operator tree path ≠ .splitter s from nofun)]
      exact ih
    | splitter t =>
      show ((t, g.size) :: g.shared).lookup s = _
      rw [List.lookup_cons]
      by_cases hst : s = t
      · subst hst
        rw [if_pos (by simp), List.idxOf_append_of_notMem hnew, h.size]
        simp
      · have hne : (s == t) = false := by simpa using hst
        rw [number?_append (by simpa using Ne.symm hst), hne]
        exact ih

end Drawn

end GraphShapes
